import LuaMachine.Call.Protected
import LuaMachine.Host.StackOperation

namespace LuaMachine

inductive CallOperation where
  | load (p : Prototype)
  | call (nargs : Nat) (wanted : Int)
  | pcall (nargs : Nat) (wanted handler : Int)
  | error
  | fail (e : Error)
  | depth
  | hasLevel (level : Nat)
  | limits
  | newThread
  | resume (i : Int) (nargs : Nat) (withSource : Bool)
  | resumeRunning (nargs : Nat)
  | moveTo (i : Int) (n : Nat)
  | moveFrom (i : Int) (n : Nat)
  | threadState (i : Int)
  | yield (n : Nat)
  | status
  | isYieldable
  | isMain
deriving Inhabited

namespace Reply

def ofResume (status : Status) (values : List Value) : Reply :=
  list [count status.code, count values.length, list (values.map value)]

def ofLimits (limits : Limits) : Reply :=
  list [count limits.stackSize, count limits.callDepth, count limits.nesting]

def noThread : Reply := word "no thread"
def busy : Reply := word "busy"

end Reply

namespace Exec

variable (re : Reentry)

def withThreadAt (i : Int) (f : ThreadId → Exec Reply) : Exec Reply := do
  match ← valueAt i with
  | .thread t => f t
  | _ => return .noThread

def inThreadOrBusy (t : ThreadId) (x : Exec Reply) : Exec Reply := do
  return (← inThread t x).getD .busy

def resumeReply (source : Option ThreadId) (nargs : Nat) : Exec Reply := do
  let (status, n) ← resume re source nargs
  return .ofResume status (← readFrame (·.topValues n))

/-- Performs an operation on calls. `outer` is the thread from which the host has taken up the
running one. -/
def performCall (outer : Option ThreadId) : CallOperation → Exec Reply
  | .load p => do
    load p
    return .count Status.ok.code
  | .call nargs wanted => silent (call re nargs wanted)
  | .pcall nargs wanted handler => return .count (← pcall re nargs wanted handler).code
  | .error => do raise (.thrown (← pop))
  | .fail e => raise e
  | .depth => return .count ((← frameCount) - 1 : Nat)
  | .hasLevel level => return .truth (level < (← frameCount) - 1)
  | .limits => return .ofLimits (← read Machine.limits)
  | .newThread => silent (discard createThread)
  | .resume i nargs withSource => withThreadAt i fun t => do
    let here ← read Machine.running
    inThreadOrBusy t (resumeReply re (if withSource then some here else none) nargs)
  | .resumeRunning nargs => resumeReply re outer nargs
  | .moveTo i n => withThreadAt i fun t => do
    let here ← read Machine.running
    inThreadOrBusy t (silent (moveBetween here t n))
  | .moveFrom i n => withThreadAt i fun t => do
    let here ← read Machine.running
    inThreadOrBusy t (silent (moveBetween t here n))
  | .threadState i => withThreadAt i fun t => do
    let thread ← read (·.threadAt t)
    return .list [.word thread.phase.name, .truth thread.isMain]
  | .yield n => do raise (← yieldError n)
  | .status => return .count (← readThread Thread.status).code
  | .isYieldable => return .truth (← isYieldable)
  | .isMain => return .truth (← read Machine.inMainThread)

end Exec
end LuaMachine
