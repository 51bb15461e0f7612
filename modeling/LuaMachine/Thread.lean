import LuaMachine.Frame

namespace LuaMachine

inductive Phase where
  | suspended
  | running
  | normal
  | dead
deriving DecidableEq, Inhabited

namespace Phase

def all : List Phase := [suspended, running, normal, dead]

def name : Phase → String
  | suspended => "suspended"
  | running => "running"
  | normal => "normal"
  | dead => "dead"

end Phase

/-- A call that a yield has interrupted: where the values of the next resume go. -/
structure PendingCall where
  site : CallSite
  wanted : Int
  base : Nat
deriving DecidableEq

structure Thread where
  /-- The lowest frame belongs to the host, the last one is running. -/
  frames : Array Frame := #[{}]
  isMain : Bool := false
  /-- Whether the thread is at rest, so that somebody can take it up. -/
  parked : Bool := true
  phase : Phase := .suspended
  status : Status := .ok
  /-- How many calls by the host are in progress; none of them can be yielded across. -/
  hostCalls : Nat := 0
  nesting : Nat := 0
  pending : Option PendingCall := none
  transfer : List Value := []
deriving DecidableEq, Inhabited

end LuaMachine
