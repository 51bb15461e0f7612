import LuaMachine.Bytecode.Operand

/-!
Argument and result lists. A list of unknown length lies above the registers, under a marker: the
index of the register that it continues. The instruction that takes it over puts the registers
from its own operand up to the marker in front of it.
-/

namespace LuaMachine.Exec

/-- Puts the values on top into the slots from index `a` on: `c - 1` of them, or, if `c` is zero,
none, and the marker goes on top. -/
def storeResults (a c : Nat) : Exec Unit :=
  match c with
  | 0 => pushInt (Int64.ofNat a)
  | n + 1 => (List.range' a n).reverse.forM fun i => replace i

def marker : Exec Int64 := do return (← valueAt (-1)).toInt64?.getD 0

/-- Replaces the marker by the registers from index `a` on, below the list. -/
def gather (a : Nat) : Exec Unit := do
  let start := (← marker).toInt32.toInt
  drop 1
  let registers ← read registerCount
  (List.range' a (start - a).toNat).forM fun i => pushValue i
  rotate (registers + 1) (start - a)

/-- Pushes the function at index `a` and its arguments; `b` counts both, or is zero for an open
list. The answer is the number of arguments. -/
def pushCall (a b : Nat) : Exec Nat := do
  match b with
  | 0 =>
    gather a
    let registers ← read registerCount
    let height ← top
    return if registers + 1 ≤ height then height - registers - 1 else height
  | n + 1 =>
    (List.range' a (n + 1)).forM fun i => pushValue i
    return n

def storeItems (t : TableId) (start : Nat) (items : List Value) : Exec Unit :=
  modifyTable t fun table =>
    (items.foldl (fun (table, i) v => (table.putInt (Int64.ofNat (i + 1)) v, i + 1))
      (table, start)).1

def blockSize : Nat := 50

/-- Stores the registers after A into the table in A; with B zero up to the marker, and the open
list after them. -/
def setList (i : Instruction) : Exec Unit := do
  let block ← if i.c = 0 then fetchExtra .setList else pure (i.c - 1)
  let target ← register i.a
  match target with
  | .table t =>
    let start := block * blockSize
    if i.b = 0 then
      let n := ((← marker).toInt - i.a - 2).toNat
      drop 1
      let registers ← read registerCount
      let items ← readFrame fun f =>
        f.window.slice (i.a + 1) n ++ f.window.slice registers (f.top - registers)
      storeItems t start items
      modifyFrame (·.setTop registers)
    else
      storeItems t start (← readFrame fun f => f.window.slice (i.a + 1) i.b)
  | v => fault (.notIndexable v.kind)

variable (re : Reentry)

def callRegister (a b c : Nat) : Exec Unit := do
  let nargs ← pushCall (a + 1) b
  let running ← enter re nargs (c - 1 : Int) (.call a c)
  if !running then storeResults (a + 1) c

def callIterator (a c : Nat) : Exec Unit := do
  discard (pushCall (a + 1) 3)
  let running ← enter re 2 c (.iterator a c)
  if !running then storeResults (a + 4) (c + 1)

/-- Ends the running function with the registers from A on as results; `b` counts them, or is
zero for an open list. -/
def returnFrom (a b : Nat) : Exec CallSite := do
  match b with
  | 0 =>
    gather (a + 1)
    leave (← read registerCount)
  | n + 1 =>
    let first ← top
    (List.range' (a + 1) n).forM fun i => pushValue i
    leave first

def copyVarargs (a b : Nat) : Exec Unit :=
  if b = 1 then pure ()
  else do
    pushAdjusted (← readFrame Frame.varargs) (b - 1 : Int)
    storeResults (a + 1) b

end LuaMachine.Exec
