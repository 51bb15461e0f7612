import LuaMachine.Access.Table
import LuaMachine.Coroutine

namespace LuaMachine.Exec

variable (re : Reentry)

/-- Pushes a closure of a prototype. Its first upvalue holds the globals, the others nil. -/
def load (p : Prototype) : Exec Unit := do
  let globals ← read Machine.globals
  let values := (List.range p.captures.length).map fun i => if i = 0 then globals else .nil
  let upvalues ← values.mapM fun v => newUpvalue (.closed v)
  push (.function (← newFunction { body := .bytecode p, upvalues := upvalues.toArray }))

def pushClosure (f : Native) (n : Nat) : Exec Unit := do
  let values ← popMany n
  push (.function (← newNative f values))

def registerNative (name : Bytes) (f : Native) : Exec Unit := do
  pushNative f
  setGlobal re name

def getSubtable (i : Int) (name : Bytes) : Exec Bool := do
  if (← getField re i name) == .table then return true
  drop 1
  let i ← absIndex i
  push (.table (← newTable {}))
  pushValue (-1)
  setField re i name
  return false

def loadedField : Bytes := Bytes.ofString "_LOADED"

def require (name : Bytes) (opener : Native) (global : Bool) : Exec Unit := do
  discard (getSubtable re registryIndex loadedField)
  discard (getField re (-1) name)
  if !(← valueAt (-1)).truthy then
    drop 1
    pushNative opener
    push (.string name)
    call re 1 1
    pushValue (-1)
    setField re (-3) name
  remove (-2)
  if global then
    pushValue (-1)
    setGlobal re name

def setFunctions (functions : List (Bytes × Native)) (n : Nat) : Exec Unit := do
  functions.forM fun (name, f) => do
    (List.range n).forM fun _ => pushValue (-(n : Int))
    let values ← popMany n
    push (.function (← newNative f values))
    setField re (-(n + 2 : Int)) name
  drop n

def newLibrary (functions : List (Bytes × Native)) : Exec Unit := do
  push (.table (← newTable {}))
  setFunctions re functions 0

end LuaMachine.Exec
