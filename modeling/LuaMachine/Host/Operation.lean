import LuaMachine.Host.CallOperation
import LuaMachine.Host.LibraryOperation
import LuaMachine.Host.TableOperation

namespace LuaMachine

inductive Operation where
  | stack (op : StackOperation)
  | table (op : TableOperation)
  | call (op : CallOperation)
  | library (op : LibraryOperation)
  | within (i : Int) (operations : List Operation)
  | attempt (operation : Operation)
deriving Inhabited

namespace Exec

variable (re : Reentry)

def present (reply : Reply) : Exec Unit :=
  modify fun m =>
    { m with shown := (reply.shown m.shown).filter (·.address?.isSome) ++ m.shown }

/-- An operation with all that is to be seen of it. What has been reported before is left to the
operation that contains this one. -/
def observed (x : Exec Reply) : Exec (Step Reply) := do
  let start ← read (·.journal.size)
  let result ← attempt x
  let entries ← read (·.journal.toList.drop start)
  modify fun m => { m with journal := m.journal.take start }
  let stack := StackView.ofValues (← readFrame Frame.values)
  match result with
  | .ok reply =>
    present reply
    present (.stack stack)
    return { result := reply, failure := none, entries, stack }
  | .error e =>
    present (.failure e)
    present (.stack stack)
    return { result := .nothing, failure := some e, entries, stack }

/-- Does something and answers with its error, if it fails, unless the error is a yield. -/
def answering {α : Type} (answer : Error → α) (x : Exec α) : Exec α := do
  match ← attempt x with
  | .error .yield => raise .yield
  | .error e => return answer e
  | .ok a => return a

mutual

/-- Performs an operation. `outer` is the thread from which the host has taken up the running
one. -/
def perform (outer : Option ThreadId) (op : Operation) : Exec Reply :=
  match op with
  | .stack op => performStack op
  | .table op => performTable re op
  | .call op => performCall re outer op
  | .library op => performLibrary re op
  | .within i operations => withThreadAt i fun t => do
    let here ← read Machine.running
    inThreadOrBusy t do return .steps (← performAll (some here) operations)
  | .attempt operation => answering .failure (perform outer operation)

def performAll (outer : Option ThreadId) (operations : List Operation) :
    Exec (List (Step Reply)) :=
  match operations with
  | [] => return []
  | op :: rest => do
    let first ← observed (perform outer op)
    return first :: (← performAll outer rest)

end

end Exec
end LuaMachine
