import LuaMachine.Proofs.OpenList.Forward
import LuaMachine.Proofs.Suspension.Local
import LuaMachine.Proofs.Suspension.Native
import LuaMachine.Proofs.Suspension.Stored

namespace LuaMachine

open Machine Exec Relation

def Instruction.callSite? (i : Instruction) : Option CallSite :=
  match i.opcode? with
  | some .call => some (.call i.a i.c)
  | some .tailCall => some (.call i.a 0)
  | some .tforCall => some (.iterator i.a i.c)
  | _ => none

namespace CallSite

def wanted : CallSite → Int
  | .call _ c => c - 1
  | .iterator _ c => c
  | _ => 0

def stored : CallSite → Frame → Frame
  | .call a c => Frame.stored a c
  | .iterator a c => Frame.stored (a + 3) (c + 1)
  | _ => id

theorem stored_alike (site : CallSite) {f g : Frame} (h : f.Alike g) :
    (site.stored f).Alike (site.stored g) := by
  cases site with
  | call a c => exact h.stored a c
  | iterator a c => exact h.stored (a + 3) (c + 1)
  | _ => exact h

end CallSite

namespace Exec

variable {m m₁ : Machine} {i : Instruction} {site : CallSite}

/-- What a call instruction calls: the function and its arguments, which it takes off the stack
again. -/
def summon (i : Instruction) : Exec (FunctionId × List Value) :=
  match i.opcode? with
  | some .tforCall => do
    let _ ← pushCall (i.a + 1) 3
    takeCall 2
  | _ => do takeCall (← pushCall (i.a + 1) i.b)

instance local_summon (i : Instruction) : Local (summon i) := by
  have (n : Nat) : Local (takeCall n) := by
    unfold takeCall
    infer_instance
  unfold summon
  split <;> infer_instance

theorem unlessRunning (x : Exec Unit) (running : Bool) :
    ((if (!running) = true then x else pure ()) >>= fun _ => pure none : Exec (Option CallSite)) =
      if running = true then pure none else x >>= fun _ => pure none := by
  cases running <;> rfl

theorem callRegister_eq (re : Reentry) (a b c : Nat) :
    (callRegister re a b c >>= fun _ => pure none : Exec (Option CallSite)) =
      (pushCall (a + 1) b >>= takeCall >>= fun p => launch re p.1 p.2 (c - 1 : Int) (.call a c) >>=
        fun running => if running = true then pure none else accept re (.call a c)) := by
  unfold callRegister
  simp only [enter_eq, bind_assoc, accept_call, unlessRunning]

theorem callIterator_eq (re : Reentry) (a c : Nat) :
    (callIterator re a c >>= fun _ => pure none : Exec (Option CallSite)) =
      ((pushCall (a + 1) 3 >>= fun _ => takeCall 2) >>= fun p =>
        launch re p.1 p.2 c (.iterator a c) >>=
          fun running => if running = true then pure none else accept re (.iterator a c)) := by
  have hd (x : Exec Nat) (k : Exec (Option CallSite)) :
      (discard x >>= fun _ => k) = (x >>= fun _ => k) := by
    funext m
    rw [run_bind, run_discard, run_bind, andThen_andThen]
    rfl
  unfold callIterator
  simp only [enter_eq, bind_assoc, accept_iterator, unlessRunning, hd]

theorem execute_summon (re : Reentry) (hf : fetch m = .done i m₁) (hs : i.callSite? = some site) :
    execute re m = (summon i >>= fun p => launch re p.1 p.2 site.wanted site >>= fun running =>
      if running = true then pure none else accept re site) m₁ := by
  unfold Instruction.callSite? at hs
  split at hs
  · next ho =>
    cases hs
    rw [execute_plain hf ho (by decide) rfl, summon, ho, plainInstruction, callRegister_eq]
    rfl
  · next ho =>
    cases hs
    rw [execute_plain hf ho (by decide) rfl, summon, ho, plainInstruction, callRegister_eq]
    rfl
  · next ho =>
    cases hs
    rw [execute_plain hf ho (by decide) rfl, summon, ho, plainInstruction, callIterator_eq]
    rfl
  · cases hs

theorem accept_stored (re : Reentry) (hs : i.callSite? = some site) (h : 1 < m.frameCount) :
    accept re site m = .done none (m.modifyTop m.running site.stored) := by
  unfold Instruction.callSite? at hs
  split at hs
  · cases hs
    rw [accept_call, run_bind, run_storeResults h]
    rfl
  · cases hs
    rw [accept_call, run_bind, run_storeResults h]
    rfl
  · cases hs
    rw [accept_iterator, run_bind, show i.a + 4 = i.a + 3 + 1 from rfl, run_storeResults h]
    rfl
  · cases hs

end Exec
end LuaMachine
