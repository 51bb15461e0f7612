import LuaMachine.Host.Operation

namespace LuaMachine

inductive Command where
  | perform (operation : Operation)
  | report (label : String) (command : Command)
  | attempt (command : Command)
  | ret (n : Nat)
  | retAll
  | repeated (n : Nat) (commands : List Command)
deriving Inhabited

abbrev Script := List Command

inductive Progress where
  | reply (content : Reply)
  | ended (results : Nat)

namespace Exec

variable (re : Reentry)

def record (script : Nat) (label : String) (content : Reply) : Exec Unit :=
  if content.isNothing then pure ()
  else do
    present content
    modify fun m => { m with journal := m.journal.push { script, label, content } }

def unlessEnded (x rest : Exec Progress) : Exec Progress := do
  match ← x with
  | .ended results => return .ended results
  | .reply _ => rest

def repeatUntilEnd (x : Exec Progress) : Nat → Exec Progress
  | 0 => return .reply .nothing
  | n + 1 => unlessEnded x (repeatUntilEnd x n)

mutual

def runCommand (script : Nat) (command : Command) : Exec Progress :=
  match command with
  | .perform op => return .reply (← perform re none op)
  | .report label command => do
    match ← runCommand script command with
    | .ended results => return .ended results
    | .reply content =>
      record script label content
      return .reply .nothing
  | .attempt command => answering (.reply ∘ .failure) (runCommand script command)
  | .ret n => return .ended n
  | .retAll => return .ended (← top)
  | .repeated n commands => repeatUntilEnd (runCommands script commands) n

def runCommands (script : Nat) (commands : List Command) : Exec Progress :=
  match commands with
  | [] => return .reply .nothing
  | command :: rest => unlessEnded (runCommand script command) (runCommands script rest)

end

/-- Runs a script in the frame of its function, after reporting the arguments. The answer is the
number of results, zero unless the script says otherwise. -/
def runScript (number : Nat) (script : Script) : Exec Nat := do
  record number "enter" (.ofStack (← readFrame Frame.values))
  match ← runCommands re number script with
  | .ended results => return results
  | .reply _ => return 0

end Exec
end LuaMachine
