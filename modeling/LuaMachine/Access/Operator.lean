import LuaMachine.Metamethod.Operator

namespace LuaMachine.Exec

variable (re : Reentry)

def arithTop (op : Operator) : Exec Unit := do
  let b ← pop
  let a ← if op.isUnary then pure b else pop
  push (← arith re op a b)

/-- Compares the values at two indices; an index that is not valid compares false. -/
def compareAt (i j : Int) (c : Comparison) : Exec Bool := do
  if (← isValid i) && (← isValid j) then
    let a ← valueAt i
    compare re c a (← valueAt j)
  else return false

def rawEqualAt (i j : Int) : Exec Bool := do
  if (← isValid i) && (← isValid j) then return (← valueAt i).rawEq (← valueAt j)
  else return false

def lengthAt (i : Int) : Exec Unit := do push (← length re (← valueAt i))

/-- Concatenates the upper `n + 1` values from the right. -/
def concatPairs : Nat → Exec Unit
  | 0 => pure ()
  | n + 1 => do
    let b ← pop
    let a ← pop
    push (← concatPair re a b)
    concatPairs n

def concat (n : Nat) : Exec Unit :=
  if n = 0 then pushString "" else concatPairs re (n - 1)

def pushNumeral (s : Bytes) : Exec Bool := do
  match Numeral.read s with
  | some n =>
    push (.number n)
    return true
  | none => return false

def rawLength (i : Int) : Exec Nat := do
  match ← valueAt i with
  | .string s => return s.length
  | .table t => read fun m => (m.table t).length
  | _ => return 0

def integerLength (i : Int) : Exec Int64 := do
  lengthAt re i
  match (← pop).toInt64? with
  | some n => return n
  | none => fault .lengthResult

def pushText (i : Int) : Exec Bytes := do
  let s ← tostring re (← valueAt i)
  push (.string s)
  return s

end LuaMachine.Exec
