import LuaMachine.Library.Base

namespace LuaMachine.Library.Coroutine

open Exec

variable (re : Reentry)

def checkThread : Exec ThreadId := do
  match ← valueAt 1 with
  | .thread t => return t
  | _ => argumentError 1 "coroutine expected"

/-- Takes up a thread with the upper `nargs` values of the running one. The answer is the number
of values that have come back, or an error object. -/
def resumeThread (t : ThreadId) (nargs : Nat) : Exec (Except Value Nat) := do
  let here ← read Machine.running
  let outcome ← inThread t do
    if !(← checkStack nargs) then
      return .error (.ofString "too many arguments to resume")
    moveBetween here t nargs
    let (status, n) ← Exec.resume re (some here) nargs
    match status with
    | .ok | .yield =>
      let fits : Bool ← read fun m => (m.frameAt here).top + (n + 1) ≤ m.limits.stackSize
      if fits then
        moveBetween t here n
        return .ok n
      else
        drop n
        return .error (.ofString "too many results to resume")
    | _ => return .error (← pop)
  match outcome with
  | some result => return result
  | none =>
    drop nargs
    return .error (.ofString "cannot resume non-suspended coroutine")

def create : Exec Nat := do
  checkKind 1 .function
  let t ← createThread
  pushValue 1
  moveBetween (← read Machine.running) t 1
  return 1

def resume : Exec Nat := do
  let t ← checkThread
  match ← resumeThread re t ((← top) - 1) with
  | .ok n =>
    push (.bool true)
    insert (-(n + 1 : Int))
    return n + 1
  | .error v =>
    push (.bool false)
    push v
    return 2

def wrapped : Exec Nat := do
  match ← valueAt (upvalueIndex 1) with
  | .thread t =>
    match ← resumeThread re t (← top) with
    | .ok n => return n
    | .error (.string s) =>
      let place ← read (·.whereText 1)
      raise (.thrown (.string (Bytes.ofString place ++ s)))
    | .error v => raise (.thrown v)
  | _ => callerError "coroutine expected"

def wrap : Exec Nat := do
  discard create
  pushClosure (.builtin .wrapped) 1
  return 1

def yield : Exec Nat := do raise (← yieldError (← top))

def status : Exec Nat := do
  let t ← checkThread
  let name ← read fun m =>
    if m.running = t && m.isNamed t then Phase.running.name else (m.threadAt t).phase.name
  pushString name
  return 1

def running : Exec Nat := do
  let isMain ← pushThread
  push (.bool isMain)
  return 2

def isyieldable : Exec Nat := do
  push (.bool (← isYieldable))
  return 1

def functions : List (String × Builtin) := [
  ("create", .create),
  ("isyieldable", .isyieldable),
  ("resume", .resume),
  ("running", .running),
  ("status", .status),
  ("wrap", .wrap),
  ("yield", .yield)]

def make : Exec Nat := do
  newLibrary re (Base.named functions)
  return 1

end LuaMachine.Library.Coroutine
