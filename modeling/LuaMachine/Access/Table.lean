import LuaMachine.Exec.Stack
import LuaMachine.Metamethod.Index

namespace LuaMachine.Exec

variable (re : Reentry)

def tableAt (i : Int) : Exec TableId := do
  match ← valueAt i with
  | .table t => return t
  | v => raise (.fault (.tableExpected v.kind) none)

def pushWithKind (v : Value) : Exec Kind := do
  push v
  return v.kind

def pushIndexed (v k : Value) : Exec Kind := do pushWithKind (← index re v k)

def getTable (i : Int) : Exec Kind := do
  let v ← valueAt i
  pushIndexed re v (← pop)

def getField (i : Int) (name : Bytes) : Exec Kind := do
  pushIndexed re (← valueAt i) (.string name)

def getIndex (i : Int) (n : Int64) : Exec Kind := do
  pushIndexed re (← valueAt i) (.int n)

def rawGet (i : Int) : Exec Kind := do
  let t ← tableAt i
  let k ← pop
  pushWithKind (← read fun m => (m.table t).get k)

def rawGetIndex (i : Int) (n : Int64) : Exec Kind := do
  let t ← tableAt i
  pushWithKind (← read fun m => (m.table t).getInt n)

def getGlobal (name : Bytes) : Exec Kind := do
  pushIndexed re (← read Machine.globals) (.string name)

def setTable (i : Int) : Exec Unit := do
  let v ← valueAt i
  let x ← pop
  let k ← pop
  assign re v k x

def setField (i : Int) (name : Bytes) : Exec Unit := do
  let v ← valueAt i
  assign re v (.string name) (← pop)

def setIndex (i : Int) (n : Int64) : Exec Unit := do
  let v ← valueAt i
  assign re v (.int n) (← pop)

def rawSet (i : Int) : Exec Unit := do
  let t ← tableAt i
  let x ← pop
  let k ← pop
  putRaw t k x

def rawSetIndex (i : Int) (n : Int64) : Exec Unit := do
  let t ← tableAt i
  let x ← pop
  modifyTable t (·.putInt n x)

def setGlobal (name : Bytes) : Exec Unit := do
  let globals ← read Machine.globals
  assign re globals (.string name) (← pop)

/-- Replaces a key on top by the next key and its value; nothing is pushed at the end. -/
def nextEntry (i : Int) : Exec Bool := do
  let t ← tableAt i
  let k ← pop
  let (table, successor) ← read fun m => (m.table t).next k
  modifyTable t fun old => { old with order := table.order, changed := table.changed }
  match successor with
  | .key k =>
    push k.toValue
    push (← read fun m => (m.table t).getKey k)
    return true
  | .finished => return false
  | .unknown => raise .unknownKey

end LuaMachine.Exec
