import LuaMachine.Call
import LuaMachine.Machine.Retention

namespace LuaMachine.Exec

variable (re : Reentry)

def createThread : Exec ThreadId := do
  let t ← newThread {}
  push (.thread t)
  return t

def pushThread : Exec Bool := do
  let t ← read Machine.running
  if ← read (·.isNamed t) then
    push (.thread t)
    read fun m => m.thread.isMain
  else
    push .nil
    return false

/-- Lets another thread run, if it is there and at rest, while a computation goes on. -/
def inThread {α : Type} (t : ThreadId) (x : Exec α) : Exec (Option α) := do
  if !(← read fun m => (m.threads[t.index]?).any Thread.parked) then return none
  let previous ← read Machine.running
  modifyThreadAt t fun th => { th with parked := false }
  modify fun m => { m with running := t }
  let result ← attempt x
  modify fun m => { m with running := previous }
  modifyThreadAt t fun th => { th with parked := true }
  return some (← ofExcept result)

def moveBetween (source target : ThreadId) (n : Nat) : Exec Unit := do
  let here ← read Machine.running
  modify fun m => { m with running := source }
  let vs ← popMany n
  modify fun m => { m with running := target }
  pushAll vs
  modify fun m => { m with running := here }

def refuse (reason : String) (nargs : Nat) : Exec (Status × Nat) := do
  drop nargs
  pushString reason
  return (.runtimeError, 1)

def startBody (nargs : Nat) : Exec Unit := do
  if ← enter re nargs (-1) .host then re.dispatch 1 none

/-- Goes on after a yield: the arguments of the resume are the results of the call that has
yielded, and what the yield has left on the stack goes away. -/
def continueCall (nargs : Nat) : Exec Unit := do
  match ← readThread Thread.pending with
  | none => pure ()
  | some call =>
    modifyThread fun t => { t with pending := none }
    let args ← popMany nargs
    modifyFrame (·.setTop call.base)
    pushAdjusted args call.wanted
    re.dispatch 1 (some call.site)

def setPhase (t : ThreadId) (phase : Phase) : Exec Unit :=
  modifyThreadAt t fun th => { th with phase }

def settleResume (result : Except Error Unit) : Exec (Status × Nat × Phase) := do
  match result with
  | .ok () => return (.ok, ← top, .dead)
  | .error .yield =>
    let values ← readThread Thread.transfer
    modifyThread fun t => { t with status := .yield, transfer := [] }
    pushAll values
    return (.yield, values.length, .suspended)
  | .error e =>
    modifyThread fun t => { t with status := e.status }
    unwindTo 1
    modifyThread fun t => { t with pending := none }
    modifyFrame (·.setTop 0)
    push e.toValue
    return (e.status, 1, .dead)

/-- Starts or continues the running thread on behalf of `source`. To start it, its body and the
arguments have to be on the stack, to continue it the results of the call that has yielded. -/
def resume (source : Option ThreadId) (nargs : Nat) : Exec (Status × Nat) := do
  let self ← read Machine.running
  let named ← read (·.isNamed self)
  let phase ← readThread Thread.phase
  if named && phase == .dead then return ← refuse "cannot resume dead coroutine" nargs
  let status ← readThread Thread.status
  let resuming := status == .yield
  if !resuming then
    if 1 < (← frameCount) then
      return ← refuse "cannot resume non-suspended coroutine" nargs
    if (← top) < nargs + 1 then return ← refuse "cannot resume dead coroutine" nargs
  let outer ← read fun m => (source.map fun s => (m.threadAt s).nesting).getD 0
  modifyThread fun t => { t with nesting := outer + 1 }
  if (← read fun m => m.limits.nesting) ≤ outer + 1 then
    return ← refuse "C stack overflow" nargs
  let source ← read fun m => source.filter m.isNamed
  source.forM (setPhase · .normal)
  if named then setPhase self .running
  modifyThread fun t => { t with hostCalls := 0, status := .ok }
  let threads := source.toList ++ if named then [self] else []
  let result ← attempt <| holding (threads.map .thread) <|
    if resuming then continueCall re nargs else startBody re nargs
  let (status, n, phase) ← settleResume result
  if named then setPhase self phase
  source.forM (setPhase · .running)
  return (status, n)

/-- The error with which a native function suspends the running thread, handing over the upper
`n` values; outside coroutines and below a call by the host it is an error of its own. -/
def yieldError (n : Nat) : Exec Error := do
  if ← read Machine.inMainThread then
    return .thrown (.ofString "attempt to yield from outside a coroutine")
  if 0 < (← readThread Thread.hostCalls) then
    return .thrown (.ofString "attempt to yield across a C-call boundary")
  let values ← popMany n
  modifyThread fun t => { t with transfer := values }
  return .yield

def isYieldable : Exec Bool := read fun m => !m.inMainThread && m.thread.hostCalls == 0

end LuaMachine.Exec
