import LuaMachine.Call
import LuaMachine.Proofs.Invariant.Stable

namespace LuaMachine

variable {α β : Type}

@[simp] theorem Outcome.andThen_done (a : α) (m : Machine) (f : α → Exec β) :
    (Outcome.done a m).andThen f = f a m := rfl

@[simp] theorem Outcome.andThen_raised (e : Error) (m : Machine) (f : α → Exec β) :
    (Outcome.raised e m : Outcome α).andThen f = .raised e m := rfl

@[simp] theorem Outcome.andThen_exhausted (f : α → Exec β) :
    (Outcome.exhausted : Outcome α).andThen f = .exhausted := rfl

theorem Outcome.andThen_eq_done {o : Outcome α} {f : α → Exec β} {b : β} {m : Machine}
    (h : o.andThen f = .done b m) : ∃ a m', o = .done a m' ∧ f a m' = .done b m := by
  cases o with
  | done a m' => exact ⟨a, m', rfl, h⟩
  | raised e m' | exhausted => cases h

theorem Outcome.andThen_eq_raised {o : Outcome α} {f : α → Exec β} {e : Error} {m : Machine}
    (h : o.andThen f = .raised e m) :
    o = .raised e m ∨ ∃ a m', o = .done a m' ∧ f a m' = .raised e m := by
  cases o with
  | done a m' => exact .inr ⟨a, m', rfl, h⟩
  | raised e' m' =>
    cases h
    exact .inl rfl
  | exhausted => cases h

namespace Exec

@[simp] theorem run_bind (x : Exec α) (f : α → Exec β) (m : Machine) :
    (x >>= f) m = (x m).andThen f := rfl

@[simp] theorem run_discard (x : Exec α) (m : Machine) :
    (discard x) m = (x m).andThen fun _ => pure () := rfl

@[simp] theorem run_pure (a : α) (m : Machine) : (pure a : Exec α) m = .done a m := rfl
@[simp] theorem run_read (f : Machine → α) (m : Machine) : read f m = .done (f m) m := rfl
@[simp] theorem run_raise (e : Error) (m : Machine) : (raise e : Exec α) m = .raised e m := rfl

@[simp] theorem run_modify (f : Machine → Machine) (m : Machine) :
    modify f m = .done () (f m) := rfl

@[simp] theorem run_ite (c : Prop) [Decidable c] (x y : Exec α) (m : Machine) :
    (if c then x else y) m = if c then x m else y m := by
  split <;> rfl

@[simp] theorem run_frameCount (m : Machine) : frameCount m = .done m.frameCount m := rfl

@[simp] theorem run_readFrame (f : Frame → α) (m : Machine) :
    readFrame f m = .done (f m.frame) m := rfl

@[simp] theorem run_readThread (f : Thread → α) (m : Machine) :
    readThread f m = .done (f m.thread) m := rfl

@[simp] theorem run_top (m : Machine) : top m = .done m.frame.top m := rfl

@[simp] theorem run_modifyFrame (g : Frame → Frame) (m : Machine) :
    modifyFrame g m = .done () (m.modifyTop m.running g) := rfl

@[simp] theorem run_modifyThread (g : Thread → Thread) (m : Machine) :
    modifyThread g m = .done () { m with threads := m.threads.modify m.running.index g } := rfl

@[simp] theorem run_pop (m : Machine) :
    pop m = .done m.frame.peek (m.modifyTop m.running (·.drop 1)) := rfl

@[simp] theorem run_popMany (n : Nat) (m : Machine) :
    popMany n m = .done (m.frame.topValues n) (m.modifyTop m.running (·.drop n)) := rfl

@[simp] theorem run_push (v : Value) (m : Machine) :
    push v m = .done () (m.modifyTop m.running (·.push v)) := rfl

@[simp] theorem run_pushAdjusted (vs : List Value) (wanted : Int) (m : Machine) :
    pushAdjusted vs wanted m = .done () (m.modifyTop m.running (·.pushAll (adjust vs wanted))) := rfl

theorem run_valueAt (i : Int) (m : Machine) : ∃ v, valueAt i m = .done v m := by
  unfold valueAt
  rw [run_bind, run_readFrame, Outcome.andThen_done]
  cases m.frame.place i with
  | slot _ | registry | nowhere => exact ⟨_, rfl⟩
  | upvalue u =>
    dsimp only
    rw [run_bind, run_read, Outcome.andThen_done]
    cases m.ownUpvalue? u <;> exact ⟨_, rfl⟩

theorem run_attempt_done {x : Exec α} {m m' : Machine} {a : α} (h : x m = .done a m') :
    attempt x m = .done (.ok a) m' := by
  rw [attempt, h]

theorem run_attempt_raised {x : Exec α} {m m' : Machine} {e : Error} (h : x m = .raised e m') :
    attempt x m = .done (.error e) m' := by
  rw [attempt, h]

theorem run_attempt_exhausted {x : Exec α} {m : Machine} (h : x m = .exhausted) :
    attempt x m = .exhausted := by
  rw [attempt, h]

end Exec
end LuaMachine
