import LuaMachine.Metamethod

namespace LuaMachine.Exec

variable (re : Reentry)

/-- Where an indexing operation goes from a value. -/
inductive IndexStep where
  | found (v : Value)
  | absent
  | stuck
  | handler (v : Value)

def indexStep (m : Machine) (v k : Value) : IndexStep :=
  let stored := match v with
    | .table t => (m.table t).get k
    | _ => .nil
  if !stored.isNil then .found stored
  else
    match m.handler v .index, v with
    | .nil, .table _ => .absent
    | .nil, _ => .stuck
    | h, _ => .handler h

def indexChain : Nat → Value → Value → Exec Value
  | 0, _, _ => fault .indexChain
  | n + 1, v, k => do
    match ← read (indexStep · v k) with
    | .found stored => return stored
    | .absent => return .nil
    | .stuck => fault (.notIndexable v.kind)
    | .handler (.function f) => callHandler re (.function f) [v, k] true
    | .handler next => indexChain n next k

def index (v k : Value) : Exec Value := holding [v] (indexChain re chainLimit v k)

inductive AssignStep where
  | store (t : TableId)
  | stuck
  | handler (v : Value)

def assignStep (m : Machine) (v k : Value) : AssignStep :=
  match v with
  | .table t =>
    if (m.table t).metatable.isSome && ((m.table t).get k).isNil then
      match m.handler v .newIndex with
      | .nil => .store t
      | h => .handler h
    else .store t
  | _ =>
    match m.handler v .newIndex with
    | .nil => .stuck
    | h => .handler h

def assignChain : Nat → Value → Value → Value → Exec Unit
  | 0, _, _, _ => fault .newIndexChain
  | n + 1, v, k, x => do
    match ← read (assignStep · v k) with
    | .store t => putRaw t k x
    | .stuck => fault (.notIndexable v.kind)
    | .handler (.function f) => discard (callHandler re (.function f) [v, k, x] false)
    | .handler next => assignChain n next k x

def assign (v k x : Value) : Exec Unit := holding [v] (assignChain re chainLimit v k x)

end LuaMachine.Exec
