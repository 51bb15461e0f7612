import LuaMachine.Metamethod

namespace LuaMachine.Exec

variable (re : Reentry)

def operandFault (op : Operator) (a b : Value) : Fault :=
  let culprit := if a.toNumber?.isSome then b else a
  if op.isBitwise then
    if a.toNumber?.isSome && b.toNumber?.isSome then .noInteger else .notBitwise culprit.kind
  else .notArithmetic culprit.kind

/-- An operator on two values; a unary one is given its operand twice. -/
def arith (op : Operator) (a b : Value) : Exec Value := do
  match op.evaluate? a b with
  | .ok (some v) => return v
  | .error division => fault (.zeroDivisor division)
  | .ok none =>
    match ← callBinary? re a b op.event with
    | some v => return v
    | none => fault (operandFault op a b)

/-- Equality; only two tables consult a handler. -/
def equals (a b : Value) : Exec Bool := do
  match a, b with
  | .table s, .table t =>
    if s = t then return true
    return ((← callBinary? re a b .eq).map Value.truthy).getD false
  | a, b => return a.rawEq b

def lessThan (a b : Value) : Exec Bool := do
  match a.less? b with
  | some r => return r
  | none =>
    match ← callBinary? re a b .lt with
    | some v => return v.truthy
    | none => fault (.unordered a.kind b.kind)

/-- `a <= b` as `not (b < a)`. The running frame remembers the negation, in case the handler
yields. -/
def notGreater (a b : Value) : Exec Bool := do
  let (thread, level) ← read fun m => (m.running, m.frameCount - 1)
  modifyFrame fun f => { f with negated := true }
  let result ← attempt (callBinary? re b a .lt)
  match result with
  | .error .yield => pure ()
  | _ => modifyFrameAt thread level fun f => { f with negated := false }
  match ← ofExcept result with
  | some v => return !v.truthy
  | none => fault (.unordered a.kind b.kind)

def lessEqual (a b : Value) : Exec Bool := do
  match a.lessEqual? b with
  | some r => return r
  | none =>
    match ← callBinary? re a b .le with
    | some v => return v.truthy
    | none => notGreater re a b

def compare (c : Comparison) (a b : Value) : Exec Bool :=
  match c with
  | .eq => equals re a b
  | .lt => lessThan re a b
  | .le => lessEqual re a b

/-- `#v`. The handler is given the operand twice. -/
def length (v : Value) : Exec Value := do
  match v with
  | .string s => return .int (Int64.ofNat s.length)
  | v =>
    match ← read (·.handler v .len), v with
    | .nil, .table t => return .int (Int64.ofNat (← read fun m => (m.table t).length))
    | .nil, v => fault (.noLength v.kind)
    | handler, v => callHandler re handler [v, v] true

def concatPair (a b : Value) : Exec Value := do
  match a.toBytes?, b.toBytes? with
  | some s, some t => return .string (s ++ t)
  | s, _ =>
    match ← callBinary? re a b .concat with
    | some v => return v
    | none => fault (.notConcatenable (if s.isSome then b.kind else a.kind))

def typeName (m : Machine) (v : Value) : String :=
  match m.handler v .name with
  | .string s => Utf8.lossy s
  | _ => v.kind.name

def tostring (v : Value) : Exec Bytes := do
  match ← read (·.handler v .tostring) with
  | .nil =>
    match v.toBytes? with
    | some s => return s
    | none =>
      if v.address?.isNone then return Bytes.ofString v.display
      let name ← read (typeName · v)
      return Bytes.ofString s!"{name}: {v.addressText}"
  | handler =>
    match ← callHandler re handler [v] true with
    | .string s => return s
    | _ => fault .tostringResult

end LuaMachine.Exec
