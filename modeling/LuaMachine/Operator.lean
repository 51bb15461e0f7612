import LuaMachine.Event
import LuaMachine.Value

namespace LuaMachine

inductive Operator where
  | add
  | sub
  | mul
  | mod
  | pow
  | div
  | idiv
  | band
  | bor
  | bxor
  | shl
  | shr
  | unm
  | bnot
deriving DecidableEq, Inhabited

inductive ZeroDivisor where
  | quotient
  | remainder
deriving DecidableEq

namespace Operator

def all : Array Operator :=
  #[add, sub, mul, mod, pow, div, idiv, band, bor, bxor, shl, shr, unm, bnot]

def number (op : Operator) : Nat := op.ctorIdx

def event : Operator → Event
  | add => .add
  | sub => .sub
  | mul => .mul
  | mod => .mod
  | pow => .pow
  | div => .div
  | idiv => .idiv
  | band => .band
  | bor => .bor
  | bxor => .bxor
  | shl => .shl
  | shr => .shr
  | unm => .unm
  | bnot => .bnot

def isBitwise : Operator → Bool
  | band | bor | bxor | shl | shr | bnot => true
  | _ => false

def isUnary : Operator → Bool
  | unm | bnot => true
  | _ => false

/-- Bitwise operators on integers; a unary one uses its first operand only. -/
def bits (op : Operator) (x y : Int64) : Int64 :=
  match op with
  | band => x &&& y
  | bor => x ||| y
  | bxor => x ^^^ y
  | shl => Integer.shiftLeft x y
  | shr => Integer.shiftRight x y
  | _ => ~~~x

def ints (op : Operator) (x y : Int64) : Except ZeroDivisor Int64 :=
  match op with
  | add => .ok (x + y)
  | sub => .ok (x - y)
  | mul => .ok (x * y)
  | mod => if y = 0 then .error .remainder else .ok (Integer.floorMod x y)
  | idiv => if y = 0 then .error .quotient else .ok (Integer.floorDiv x y)
  | _ => .ok (-x)

def floats (op : Operator) (x y : Double) : Double :=
  match op with
  | add => x.add y
  | sub => x.sub y
  | mul => x.mul y
  | mod => x.floorMod y
  | idiv => (x.div y).floor
  | pow => x.pow y
  | div => x.div y
  | _ => x.neg

/-- Two integers stay integers under every operator but `/` and `^`. -/
def numbers (op : Operator) (a b : Number) : Except ZeroDivisor Number :=
  match op, a, b with
  | pow, a, b | div, a, b => .ok (.float (op.floats a.toDouble b.toDouble))
  | op, .int x, .int y => (op.ints x y).map .int
  | op, a, b => .ok (.float (op.floats a.toDouble b.toDouble))

def evaluate? (op : Operator) (a b : Value) : Except ZeroDivisor (Option Value) :=
  if op.isBitwise then
    match a.toInt64?, b.toInt64? with
    | some x, some y => .ok (some (.int (op.bits x y)))
    | _, _ => .ok none
  else
    match a.toNumber?, b.toNumber? with
    | some x, some y => (op.numbers x y).map fun n => some (.number n)
    | _, _ => .ok none

end Operator
end LuaMachine
