import LuaMachine.Error

namespace LuaMachine

inductive StackView where
  | whole (values : List Value)
  | upper (height : Nat) (values : List Value)

namespace StackView

def wholeLimit : Nat := 40

def upperSize : Nat := 8

def ofValues (vs : List Value) : StackView :=
  if vs.length ≤ wholeLimit then whole vs
  else upper vs.length (vs.drop (vs.length - upperSize))

def values : StackView → List Value
  | whole vs => vs
  | upper _ vs => vs

end StackView

structure Entry (ρ : Type) where
  script : Nat
  label : String
  content : ρ

/-- One operation of a host script: its result, the error it failed with, what was reported
meanwhile, and the stack it left behind. -/
structure Step (ρ : Type) where
  result : ρ
  failure : Option Error
  entries : List (Entry ρ)
  stack : StackView

inductive Reply where
  | nothing
  | truth (b : Bool)
  | count (n : Int)
  | word (s : String)
  | value (v : Value)
  | list (items : List Reply)
  | stack (view : StackView)
  | pairs (items : List (Value × Value))
  /-- The parts of a table: sequence, other entries, metatable. -/
  | table (items : List Value) (entries : List (Value × Value)) (metatable : Option Value)
  | notTable (v : Value)
  | failure (e : Error)
  | steps (items : List (Step Reply))

instance : Inhabited Reply := ⟨.nothing⟩

namespace Reply

def isNothing : Reply → Bool
  | nothing => true
  | _ => false

def words (names : List String) : Reply := list (names.map word)

def ofStack (vs : List Value) : Reply := stack (.ofValues vs)

def isKnown (seen : List Value) (k : Value) : Bool := k.address?.isNone || seen.contains k

mutual

/-- The values that a reply shows, given those that have been shown before. Of a table's entries
it shows those with known keys; steps have been shown one by one. -/
def shown (seen : List Value) : Reply → List Value
  | value v | notTable v => [v]
  | list replies => allShown seen replies
  | stack view => view.values
  | pairs items => items.flatMap fun (k, v) => [k, v]
  | table items entries metatable =>
    let known := entries.filter fun (k, _) => isKnown (items ++ seen) k
    items ++ known.flatMap (fun (k, v) => [k, v]) ++ metatable.toList
  | failure e => [e.toValue]
  | nothing | truth _ | count _ | word _ | steps _ => []

def allShown (seen : List Value) : List Reply → List Value
  | [] => []
  | reply :: rest => shown seen reply ++ allShown seen rest

end

end Reply
end LuaMachine
