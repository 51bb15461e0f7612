import LuaMachine.Access.Table

namespace LuaMachine.Exec

variable (re : Reentry)

def getMetatable (i : Int) : Exec Bool := do
  let v ← valueAt i
  match ← read (·.metatable v) with
  | some t =>
    push (.table t)
    return true
  | none => return false

/-- Gives a table its metatable, or all values of another type theirs. -/
def setMetatableOf (v : Value) (metatable : Option TableId) : Exec Unit :=
  match v with
  | .table t => modifyTable t fun table => { table with metatable }
  | v => modify fun m =>
    let others := m.metatables.filter (·.1 != v.kind)
    { m with metatables := (metatable.map (v.kind, ·)).toList ++ others }

def setMetatable (i : Int) : Exec Unit := do
  let v ← valueAt i
  match ← pop with
  | .nil => setMetatableOf v none
  | .table t => setMetatableOf v (some t)
  | other => raise (.fault (.tableExpected other.kind) none)

def getMetafield (i : Int) (name : Bytes) : Exec Kind := do
  let v ← valueAt i
  let field ← read fun m => (m.metatable v).map fun t => (m.table t).getString name
  match field with
  | none | some .nil => return .nil
  | some field => pushWithKind field

def callMetafield (i : Int) (name : Bytes) : Exec Bool := do
  let i ← absIndex i
  if (← getMetafield i name) == .nil then return false
  pushValue i
  call re 1 1
  return true

end LuaMachine.Exec
