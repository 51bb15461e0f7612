import LuaMachine.Instruction
import LuaMachine.Value

namespace LuaMachine

/-- Where a new closure finds a captured variable: in a register of the function that creates
it, or among that function's own upvalues. -/
inductive Capture where
  | register (slot : Nat)
  | upvalue (index : Nat)
deriving DecidableEq, Inhabited

structure Prototype where
  source : Option String := none
  parameters : Nat := 0
  variadic : Bool := false
  registers : Nat := 2
  code : Array Instruction := #[]
  constants : Array Value := #[]
  captures : List Capture := []
  children : Array Prototype := #[]
  lines : Array Nat := #[]
deriving Inhabited

namespace Prototype

def lineAt? (p : Prototype) (pc : Nat) : Option Nat := p.lines[pc]?

/-- The source name without the mark that tells files and other sources apart. -/
def sourceName (p : Prototype) : String :=
  match p.source with
  | none => "?"
  | some name =>
    match name.toList with
    | '@' :: rest | '=' :: rest => String.ofList rest
    | _ => name

def location? (p : Prototype) (pc : Nat) : Option String :=
  (p.lineAt? pc).map fun line => s!"{p.sourceName}:{line}:"

end Prototype
end LuaMachine
