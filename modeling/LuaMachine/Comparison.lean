import LuaMachine.Value

namespace LuaMachine

/-- The three comparisons; the remaining ones swap or negate these. -/
inductive Comparison where
  | eq
  | lt
  | le
deriving DecidableEq, Inhabited

namespace Comparison

def all : Array Comparison := #[eq, lt, le]

def number (c : Comparison) : Nat := c.ctorIdx

end Comparison

def Bytes.lt : Bytes → Bytes → Bool
  | _, [] => false
  | [], _ :: _ => true
  | a :: as, b :: bs => a < b || (a == b && Bytes.lt as bs)

def Value.less? : Value → Value → Option Bool
  | .number a, .number b => some (a.lt b)
  | .string a, .string b => some (Bytes.lt a b)
  | _, _ => none

def Value.lessEqual? : Value → Value → Option Bool
  | .number a, .number b => some (a.le b)
  | .string a, .string b => some (!Bytes.lt b a)
  | _, _ => none

end LuaMachine
