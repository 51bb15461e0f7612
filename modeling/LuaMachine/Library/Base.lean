import LuaMachine.Access.Function
import LuaMachine.Access.Metatable
import LuaMachine.Access.Operator
import LuaMachine.Argument
import LuaMachine.Call.Protected

namespace LuaMachine.Library.Base

open Exec

variable (re : Reentry)

def print : Exec Nat := do
  let n ← top
  let texts ← (List.range' 1 n).mapM fun (i : Nat) => do Exec.tostring re (← valueAt i)
  let line := (List.intersperse [0x09] texts).flatten ++ [0x0A]
  modify fun m => { m with printed := m.printed ++ line.toArray }
  return 0

def type : Exec Nat := do
  checkAny 1
  pushString (← kindAt 1).name
  return 1

def tostring : Exec Nat := do
  checkAny 1
  discard (pushText re 1)
  return 1

def tonumberPlain : Exec Nat := do
  match ← valueAt 1 with
  | .number _ =>
    setTop 1
    return 1
  | .string s =>
    if !(← pushNumeral s) then push .nil
    return 1
  | _ =>
    checkAny 1
    push .nil
    return 1

def tonumberBase : Exec Nat := do
  let base ← checkInt 2
  checkKind 1 .string
  checkThat (2 ≤ base && base ≤ 36) 2 "base out of range"
  match ← valueAt 1 with
  | .string s =>
    push (((Numeral.readBase base.toInt.toNat s).map Value.int).getD .nil)
    return 1
  | _ =>
    push .nil
    return 1

def tonumber : Exec Nat := do
  if ← isAbsent 2 then tonumberPlain else tonumberBase

def rawget : Exec Nat := do
  checkKind 1 .table
  checkAny 2
  setTop 2
  discard (rawGet 1)
  return 1

def rawset : Exec Nat := do
  checkKind 1 .table
  checkAny 2
  checkAny 3
  setTop 3
  rawSet 1
  return 1

def rawequal : Exec Nat := do
  checkAny 1
  checkAny 2
  push (.bool (← rawEqualAt 1 2))
  return 1

def rawlen : Exec Nat := do
  let kind ← kindAt 1
  checkThat (kind == .table || kind == .string) 1 "table or string expected"
  pushInt (Int64.ofNat (← rawLength 1))
  return 1

def setmetatable : Exec Nat := do
  checkKind 1 .table
  let kind ← kindAt 2
  checkThat (kind == .nil || kind == .table) 2 "nil or table expected"
  if (← getMetafield 1 Event.metatable.key) != .nil then
    callerError "cannot change a protected metatable"
  setTop 2
  setMetatable 1
  return 1

/-- A metatable can show another value in its place. -/
def getmetatable : Exec Nat := do
  checkAny 1
  if ← getMetatable 1 then discard (getMetafield 1 Event.metatable.key) else push .nil
  return 1

def next : Exec Nat := do
  checkKind 1 .table
  setTop 2
  if ← nextEntry 1 then return 2
  push .nil
  return 1

def pairs : Exec Nat := do
  checkAny 1
  if (← getMetafield 1 Event.pairs.key) == .nil then
    pushNative (.builtin .next)
    pushValue 1
    push .nil
  else
    pushValue 1
    call re 1 3
  return 3

def ipairsStep : Exec Nat := do
  let i := (← checkInt 2) + 1
  pushInt i
  if (← getIndex re 1 i) == .nil then return 1 else return 2

def ipairs : Exec Nat := do
  checkAny 1
  pushNative (.builtin .ipairsStep)
  pushValue 1
  pushInt 0
  return 3

def select : Exec Nat := do
  let n : Int ← top
  match ← valueAt 1 with
  | .string (0x23 :: _) =>
    pushInt (Int64.ofInt (n - 1))
    return 1
  | _ =>
    let i := (← checkInt 1).toInt
    let i := if i < 0 then i + n else min i n
    checkThat (1 ≤ i) 1 "index out of range"
    return (n - i).toNat

/-- Raises the first argument. A string gets the place of the function at `level`. -/
def raiseAt (level : Int64) : Exec Nat := do
  setTop 1
  if (← kindAt 1) == .string && 0 < level then
    pushString (← read (·.whereText level.toInt.toNat))
    insert 1
    Exec.concat re 2
  raise (.thrown (← pop))

def error : Exec Nat := do raiseAt re (← optional 2 1 checkInt)

def assert : Exec Nat := do
  if (← valueAt 1).truthy then top
  else
    checkAny 1
    remove 1
    pushString "assertion failed!"
    setTop 1
    error re

def pcall : Exec Nat := do
  checkAny 1
  guardedCall re none

def xpcall : Exec Nat := do
  checkKind 2 .function
  let handler ← valueAt 2
  remove 2
  guardedCall re (some handler)

def functions : List (String × Builtin) := [
  ("assert", .assert),
  ("error", .error),
  ("getmetatable", .getmetatable),
  ("ipairs", .ipairs),
  ("next", .next),
  ("pairs", .pairs),
  ("pcall", .pcall),
  ("print", .print),
  ("rawequal", .rawequal),
  ("rawget", .rawget),
  ("rawlen", .rawlen),
  ("rawset", .rawset),
  ("select", .select),
  ("setmetatable", .setmetatable),
  ("tonumber", .tonumber),
  ("tostring", .tostring),
  ("type", .type),
  ("xpcall", .xpcall)]

def named (functions : List (String × Builtin)) : List (Bytes × Native) :=
  functions.map fun (name, f) => (Bytes.ofString name, .builtin f)

/-- Fills the table of globals, which is the library. -/
def make : Exec Nat := do
  push (← read Machine.globals)
  push (← read Machine.globals)
  setField re (-2) (Bytes.ofString "_G")
  setFunctions re (named functions) 0
  pushString "Lua 5.3"
  setField re (-2) (Bytes.ofString "_VERSION")
  return 1

end LuaMachine.Library.Base
