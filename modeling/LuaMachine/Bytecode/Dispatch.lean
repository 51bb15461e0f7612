import LuaMachine.Bytecode.Step
import LuaMachine.Call.Protected

/-!
The dispatch loop. It runs the frames above a depth, hands results to their call sites, and lets
an error end the innermost protected call in progress. A yield leaves the frames in place; the next
resume completes the call site that the yield has left open and enters the loop again.
-/

namespace LuaMachine.Exec

variable (re : Reentry)

def currentInstruction? (m : Machine) : Option Instruction :=
  match m.frame.pc with
  | 0 => none
  | pc + 1 => m.prototype.bind (·.code[pc]?)

/-- Completes the instruction that has called a metamethod, whose result is on top. -/
def finishInstruction : Exec Unit := do
  match ← read currentInstruction? with
  | none => pure ()
  | some i =>
    match i.opcode? with
    | some .eq | some .lt | some .le =>
      let result := (← pop).truthy
      let negated ← readFrame Frame.negated
      modifyFrame fun f => { f with negated := false }
      skipUnless (result != negated) (i.a != 0)
    | some .concat =>
      let r ← readFrame Frame.concatAt
      setRegister r (← pop)
      concatFrom re i.a i.b (r - i.b)
    | some .getTabUp | some .getTable | some .self | some .add | some .sub | some .mul
    | some .mod | some .pow | some .div | some .idiv | some .band | some .bor | some .bxor
    | some .shl | some .shr | some .unm | some .bnot | some .len =>
      setRegister i.a (← pop)
    | _ => pure ()

/-- Hands the results on top to a call site; `n` bounds the protected calls that end with it. The
answer is true once the frames above `stop` are done. -/
def deliverAt (stop : Nat) : Nat → CallSite → Exec Bool
  | 0, _ => pure true
  | n + 1, site => do
    if (← frameCount) ≤ stop then return true
    match site with
    | .host => return true
    | .call a c =>
      storeResults (a + 1) c
      return false
    | .iterator a c =>
      storeResults (a + 4) (c + 1)
      return false
    | .metamethod =>
      finishInstruction re
      return false
    | .guarded => deliverAt stop n (← completeGuarded)

def deliver (stop : Nat) (site : CallSite) : Exec Bool := do
  deliverAt re stop ((← frameCount) + 1) site

def step (stop : Nat) : Exec Bool := do
  let i ← fetch
  match i.opcode? with
  | none => fault (.noOpcode i.opcodeNumber)
  | some .return =>
    let site ← returnFrom i.a i.b
    deliver re stop site
  | some op =>
    plainInstruction re op i
    return false

/-- Lets an error end the protected call of a guarded frame. -/
def handle (stop level : Nat) (e : Error) : Exec Bool := do
  let site ← recover re level e
  deliver re stop site

/-- Goes on from the outcome of a step; `fuel` bounds the number of steps. -/
def settle (stop : Nat) : (fuel : Nat) → Outcome Bool → Outcome Unit
  | _, .exhausted => .exhausted
  | _, .done true m => .done () m
  | _, .raised .yield m => .raised .yield m
  | 0, _ => .exhausted
  | fuel + 1, .done false m => settle stop fuel (step re stop m)
  | fuel + 1, .raised e m =>
    match m.guardedLevel? stop with
    | none => .raised e m
    | some level => settle stop fuel (handle re stop level e m)

/-- Completes a call site, if one is given, and runs the frames above a depth. -/
def dispatch (fuel stop : Nat) (site : Option CallSite) : Exec Unit := fun m =>
  match site with
  | none => settle re stop fuel (.done false m)
  | some site => settle re stop fuel (deliver re stop site m)

end LuaMachine.Exec
