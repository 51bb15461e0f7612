import LuaMachine.Exec.Stack

/-!
Calls. Starting a call takes the function and its arguments off the stack; ending one puts the
results there, as many as are wanted. A call of bytecode leaves a frame that the dispatch loop has
to run; a native function has finished when its call has started, unless it yields.

A protected call marks its native frame with a guard. The frame stays below a bytecode callee and
catches its errors.
-/

namespace LuaMachine

/-- How an operation gets back into the machine. -/
structure Reentry where
  dispatch : (stop : Nat) → (site : Option CallSite) → Exec Unit
  /-- Runs a native function in the running frame; the answer is the number of its results. -/
  invoke : Native → Exec Nat

/-- How many `__call` handlers, `__index` tables or `__newindex` tables are followed. -/
def chainLimit : Nat := 2000

/-- The stack slots that every function finds besides its registers. -/
def spareSlots : Nat := 20

namespace Exec

variable (re : Reentry)

/-- The function that a value stands for. Handlers of `__call` take the value as an extra first
argument. -/
def callTarget (n : Nat) (v : Value) (args : List Value) : Exec (FunctionId × List Value) :=
  match v, n with
  | .function f, _ => pure (f, args)
  | v, 0 => fault (.notCallable v.kind)
  | v, n + 1 => do
    match ← read (·.handler v .call) with
    | .nil => fault (.notCallable v.kind)
    | handler => callTarget n handler (v :: args)

def bytecodeFrame (f : FunctionId) (p : Prototype) (args : List Value) (wanted : Int)
    (site : CallSite) : Frame :=
  { window := (adjust (adjust args p.parameters) p.registers).toArray
    top := p.registers
    function := some f
    varargs := if p.variadic then args.drop p.parameters else []
    site
    wanted }

def nativeFrame (f : FunctionId) (args : List Value) (wanted : Int) (site : CallSite) : Frame :=
  { window := args.toArray, top := args.length, function := some f, site, wanted }

/-- Leaves a call open until the next resume, unless another one is open already. -/
def suspendCall (wanted : Int) (site : CallSite) : Exec Unit := do
  let base ← top
  modifyThread fun t => { t with pending := t.pending <|> some { site, wanted, base } }

/-- Ends the running frame: its upper `n` values are the results, as many of them as are wanted. -/
def endFrame (n : Nat) (wanted : Int) : Exec Unit := do
  let results ← popMany n
  popFrame
  pushAdjusted results wanted

def leave (first : Nat) : Exec CallSite := do
  let (site, wanted) ← readFrame fun f => (f.site, f.wanted)
  endFrame ((← top) - first) wanted
  return site

/-- Runs a native function in a frame of its own. The answer is true if that frame stays behind
because a protected call is in progress. -/
def callNative (f : FunctionId) (body : Native) (args : List Value) (wanted : Int)
    (site : CallSite) : Exec Bool := do
  pushFrame (nativeFrame f args wanted site)
  let depth ← frameCount
  let result ← attempt (re.invoke body)
  let guarded ← read (·.isGuarded (depth - 1))
  match result with
  | .ok n =>
    if guarded && depth < (← frameCount) then return true
    truncateFrames depth
    endFrame n wanted
    return false
  | .error .yield =>
    if guarded then
      truncateFrames depth
    else
      truncateFrames (depth - 1)
      suspendCall wanted site
    raise .yield
  | .error e =>
    truncateFrames (depth - 1)
    raise e

/-- Starts a call of the function below the upper `nargs` values. The answer is true if there are
frames that the dispatch loop has to run. -/
def enter (nargs : Nat) (wanted : Int) (site : CallSite) : Exec Bool := do
  let args ← popMany nargs
  let callee ← pop
  let (f, args) ← callTarget chainLimit callee args
  let limits ← read Machine.limits
  if limits.callDepth < (← frameCount) then fault .frameOverflow
  match (← read (·.functionAt f)).body with
  | .bytecode p =>
    if limits.stackSize < p.registers + spareSlots then fault .frameOverflow
    pushFrame (bytecodeFrame f p args wanted site)
    return true
  | .native body => callNative re f body args wanted site

def enterAndRun (nargs : Nat) (wanted : Int) (site : CallSite) : Exec Unit := do
  let depth ← frameCount
  if ← enter re nargs wanted site then re.dispatch depth none

/-- A count of calls when some of them end. It is a word of the machine: below zero it comes round. -/
def countDown (count calls : Nat) : Nat :=
  if calls ≤ count then count - calls else count + UInt64.size - calls

/-- Counts a level of nesting while a computation runs; `host` tells whether the host waits for
it, so that it cannot be yielded across. -/
def nested (host : Bool) (x : Exec Unit) : Exec Unit := do
  let (limits, nesting) ← read fun m => (m.limits, m.thread.nesting)
  if limits.nesting ≤ nesting then fault .hostOverflow
  let waiting := if host then 1 else 0
  modifyThread fun t =>
    { t with nesting := t.nesting + 1, hostCalls := t.hostCalls + waiting }
  let result ← attempt x
  modifyThread fun t =>
    { t with nesting := countDown t.nesting 1, hostCalls := countDown t.hostCalls waiting }
  ofExcept result

def unwindTo (depth : Nat) : Exec Unit := truncateFrames (max depth 1)

def call (nargs : Nat) (wanted : Int) : Exec Unit := do
  let depth ← frameCount
  match ← attempt (nested true (enterAndRun re nargs wanted .host)) with
  | .ok () => pure ()
  | .error e =>
    unwindTo depth
    raise e

def callYieldable (nargs : Nat) (wanted : Int) : Exec Unit :=
  nested false (enterAndRun re nargs wanted .metamethod)

end Exec
end LuaMachine
