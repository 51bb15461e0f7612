import LuaMachine.Bytecode.Dispatch
import LuaMachine.Host.Script

/-!
The machine as a whole. The dispatch loop and the native functions call each other; fuel bounds
both the depth of these calls and the length of each run of the loop.
-/

namespace LuaMachine

structure Host where
  scripts : Array Script := #[]

namespace Host

def native (host : Host) (re : Reentry) : Native → Exec Nat
  | .builtin f => f.run re
  | .script n => Exec.runScript re n (host.scripts.getD n [])

mutual

def dispatch (host : Host) : (fuel stop : Nat) → Option CallSite → Exec Unit
  | 0, _, _ => Exec.exhausted
  | n + 1, stop, site => Exec.dispatch ⟨host.dispatch n, host.invoke n⟩ n stop site

def invoke (host : Host) : (fuel : Nat) → Native → Exec Nat
  | 0, _ => Exec.exhausted
  | n + 1, f => host.native ⟨host.dispatch n, host.invoke n⟩ f

end

def reentry (host : Host) (fuel : Nat) : Reentry := ⟨host.dispatch fuel, host.invoke fuel⟩

def run (host : Host) (fuel : Nat) (limits : Limits) (library : Option Library)
    (operations : List Operation) : Outcome (List (Step Reply)) :=
  let session : Exec (List (Step Reply)) := do
    library.forM (Library.openGlobally (host.reentry fuel))
    Exec.performAll (host.reentry fuel) none operations
  session (Machine.new limits)

end Host
end LuaMachine
