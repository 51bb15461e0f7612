import LuaMachine.Metamethod.Operator

namespace LuaMachine

namespace Machine

/-- The place of the function `level` calls below the running one, as a beginning of messages. -/
def whereText (m : Machine) (level : Nat) : String :=
  if level + 1 ≤ m.frameCount then
    match (m.thread.frames[m.frameCount - level - 1]?).bind m.locationOf with
    | some place => place ++ " "
    | none => ""
  else ""

def keyOf? (m : Machine) (t : TableId) (v : Value) : Option Key :=
  ((m.table t).toList.find? (·.2.rawEq v)).map Prod.fst

def namedTables (m : Machine) (t : TableId) : List (Bytes × TableId) :=
  (m.table t).toList.filterMap fun
    | (.string name, .table t) => some (name, t)
    | _ => none

def functionName? (m : Machine) (f : FunctionId) : Option String :=
  match m.globals with
  | .table globals =>
    match m.keyOf? globals (.function f) with
    | some k => some k.toValue.display
    | none =>
      (m.namedTables globals).findSome? fun (name, t) =>
        (m.keyOf? t (.function f)).map fun k => s!"{Utf8.lossy name}.{k.toValue.display}"
  | _ => none

def runningName (m : Machine) : String :=
  (m.frame.function.bind m.functionName?).getD "?"

def callerError (m : Machine) (text : String) : Error :=
  .thrown (.ofString (m.whereText 1 ++ text))

def argumentError (m : Machine) (i : Int) (text : String) : Error :=
  m.callerError s!"bad argument #{i} to '{m.runningName}' ({text})"

end Machine

namespace Exec

variable {α : Type}

def callerError (text : String) : Exec α := do raise (← read (·.callerError text))

def argumentError (i : Int) (text : String) : Exec α := do raise (← read (·.argumentError i text))

def typeError (i : Int) (expected : String) : Exec α := do
  let v ← valueAt i
  let actual ← if ← isValid i then read (typeName · v) else pure Kind.none.name
  argumentError i s!"{expected} expected, got {actual}"

def checkThat (holds : Bool) (i : Int) (text : String) : Exec Unit :=
  if holds then pure () else argumentError i text

def checkAny (i : Int) : Exec Unit := do
  checkThat ((← kindAt i) != .none) i "value expected"

def checkKind (i : Int) (kind : Kind) : Exec Unit := do
  if (← kindAt i) != kind then typeError i kind.name

def checkInt (i : Int) : Exec Int64 := do
  let v ← valueAt i
  match v.toInt64? with
  | some n => return n
  | none =>
    if v.toNumber?.isSome then argumentError i Fault.noInteger.message
    else typeError i Kind.number.name

def checkNumber (i : Int) : Exec Double := do
  match (← valueAt i).toDouble? with
  | some x => return x
  | none => typeError i Kind.number.name

/-- The string at an index. A number there becomes a string in place. -/
def toStringAt? (i : Int) : Exec (Option Bytes) := do
  match ← valueAt i with
  | .number n =>
    let s := Bytes.ofString n.text
    storeAt i (.string s)
    return some s
  | .string s => return some s
  | _ => return none

def checkString (i : Int) : Exec Bytes := do
  match ← toStringAt? i with
  | some s => return s
  | none => typeError i Kind.string.name

def isAbsent (i : Int) : Exec Bool := do
  let kind ← kindAt i
  return kind == .none || kind == .nil

def optional (i : Int) (default : α) (check : Int → Exec α) : Exec α := do
  if ← isAbsent i then return default else check i

end Exec
end LuaMachine
