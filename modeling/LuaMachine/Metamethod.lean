import LuaMachine.Call

namespace LuaMachine.Exec

variable (re : Reentry)

def inBytecode : Exec Bool := read fun m => m.prototype.isSome

/-- Calls a handler; the answer is its first result, or nil if no result is wanted. The arguments
are kept until the handler is done. -/
def callHandler (handler : Value) (args : List Value) (wantsResult : Bool) : Exec Value := do
  push handler
  pushAll args
  let wanted := if wantsResult then 1 else 0
  holding args do
    if ← inBytecode then callYieldable re args.length wanted else call re args.length wanted
  if wantsResult then pop else return .nil

def callBinary? (a b : Value) (e : Event) : Exec (Option Value) := do
  let left ← read (·.handler a e)
  let handler ← if left.isNil then read (·.handler b e) else pure left
  if handler.isNil then return none
  return some (← callHandler re handler [a, b] true)

end LuaMachine.Exec
