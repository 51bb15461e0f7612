import LuaMachine.Call

namespace LuaMachine

namespace Exec

variable (re : Reentry)

/-- What a message handler makes of an error object; `none` if the handler fails. -/
def runHandler (handler v : Value) : Exec (Option Value) := do
  push handler
  push v
  match ← attempt (call re 1 1) with
  | .ok () => return some (← pop)
  | .error _ => return none

def caughtValue (handler : Option Value) (e : Error) : Exec Value := do
  match handler with
  | none => return e.toValue
  | some h => return (← runHandler re h e.toValue).getD Error.handlerFailed.toValue

/-- Calls in protected mode on behalf of the host. On failure the error object takes the place of
the function and its arguments. -/
def pcall (nargs : Nat) (wanted : Int) (handlerIndex : Int) : Exec Status := do
  let handler ← if handlerIndex = 0 then pure none else some <$> valueAt handlerIndex
  let depth ← frameCount
  let functionSlot := (← top) - (nargs + 1)
  let (hostCalls, nesting) ← readThread fun t => (t.hostCalls, t.nesting)
  match ← attempt (holding handler.toList (call re nargs wanted)) with
  | .ok () => return .ok
  | .error e =>
    unwindTo depth
    modifyThread fun t => { t with hostCalls, nesting }
    match handler with
    | none =>
      modifyFrame (·.setTop functionSlot)
      push e.toValue
      return e.status
    | some h =>
      modifyFrame (·.setTop functionSlot)
      let v ← runHandler re h e.toValue
      modifyFrame (·.setTop functionSlot)
      push (v.getD Error.handlerFailed.toValue)
      return if v.isSome then e.status else .handlerError

def takeGuard : Exec (Option Value) := do
  let guard ← readFrame Frame.guard
  modifyFrame fun f => { f with guard := none }
  return guard.bind Guard.handler

/-- Calls the value at the bottom of a native frame in protected mode, the values above being its
arguments. A bytecode callee is left to the dispatch loop. Any other is done, and true and its
results, or false and the error object, are the results of the native function. -/
def guardedCall (handler : Option Value) : Exec Nat := do
  let level ← frameCount
  let nargs := (← top) - 1
  modifyFrame fun f => { f with guard := some { handler } }
  match ← attempt (enter re nargs (-1) .guarded) with
  | .ok true => return 0
  | .ok false =>
    discard takeGuard
    push (.bool true)
    insert 1
    top
  | .error .yield => raise .yield
  | .error e =>
    truncateFrames level
    let v ← caughtValue re (← takeGuard) e
    modifyFrame (·.setTop 0)
    push (.bool false)
    push v
    return 2

def completeGuarded : Exec CallSite := do
  discard takeGuard
  push (.bool true)
  insert 1
  leave 0

def recover (level : Nat) (e : Error) : Exec CallSite := do
  unwindTo (level + 1)
  let handler ← takeGuard
  modifyFrame (·.setTop 0)
  let v ← caughtValue re handler e
  push (.bool false)
  push v
  leave 0

end Exec
end LuaMachine
