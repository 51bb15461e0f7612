import LuaMachine.Proofs.Results

namespace LuaMachine

open Machine Exec

namespace Machine

/-- In the second machine the running frame has changed, and nothing else that calls rely on. -/
def Touches (m m' : Machine) : Prop :=
  ∃ (g : Frame → Frame) (held : List Value), m' = { m.modifyTop m.running g with held }

variable {m m' m'' : Machine} {t : ThreadId} {n h : Nat} {honest yielding : Prop}

theorem Touches.refl (m : Machine) : m.Touches m := ⟨id, m.held, by rw [modifyTop_id]⟩

theorem Touches.trans (h : m.Touches m') (h' : m'.Touches m'') : m.Touches m'' := by
  obtain ⟨g, held, rfl⟩ := h
  obtain ⟨g', held', rfl⟩ := h'
  refine ⟨g' ∘ g, held', ?_⟩
  rw [← modifyTop_modifyTop]
  rfl

theorem Touches.modifyTop (m : Machine) (g : Frame → Frame) : m.Touches (m.modifyTop m.running g) :=
  ⟨g, m.held, rfl⟩

theorem Touches.running (h : m.Touches m') : m'.running = m.running := by
  obtain ⟨g, held, rfl⟩ := h
  rfl

theorem Touches.frameCount (h : m.Touches m') : m'.frameCount = m.frameCount := by
  obtain ⟨g, held, rfl⟩ := h
  exact m.size_modifyTop ..

end Machine

namespace Exec

variable {α β : Type}

class Local (x : Exec α) : Prop where
  touches : ∀ {m m' : Machine} {a : α}, x m = .done a m' → m.Touches m'

namespace Local

instance pure (a : α) : Local (pure a) where
  touches h := by
    cases h
    exact .refl _

theorem bind {x : Exec α} {f : α → Exec β} (hx : Local x) (hf : ∀ a, Local (f a)) :
    Local (x >>= f) where
  touches h := by
    obtain ⟨a, m₁, h₁, h₂⟩ := Outcome.andThen_eq_done h
    exact (hx.touches h₁).trans ((hf a).touches h₂)

instance (x : Exec α) (f : α → Exec β) [hx : Local x] [hf : ∀ a, Local (f a)] :
    Local (x >>= f) := bind hx hf

instance read (f : Machine → α) : Local (read f) where
  touches h := by
    cases h
    exact .refl _

instance readFrame (f : Frame → α) : Local (readFrame f) := read _

instance raise (e : Error) : Local (raise e : Exec α) := ⟨nofun⟩

instance modifyFrame (g : Frame → Frame) : Local (modifyFrame g) where
  touches h := by
    cases h
    exact .modifyTop _ g

instance ite (c : Prop) [Decidable c] (x y : Exec α) [Local x] [Local y] :
    Local (if c then x else y) := by
  split <;> infer_instance

instance forM {γ : Type} (l : List γ) (f : γ → Exec PUnit) [hf : ∀ a, Local (f a)] :
    Local (l.forM f) := by
  induction l with
  | nil => exact pure _
  | cons a l ih => exact bind (hf a) fun _ => ih

instance readUpvalue (u : UpvalueId) : Local (readUpvalue u) := read _

instance valueAt (i : Int) : Local (valueAt i) := by
  unfold Exec.valueAt
  refine bind inferInstance fun p => ?_
  cases p with
  | upvalue u =>
    refine bind inferInstance fun u? => ?_
    cases u? <;> infer_instance
  | slot _ | registry | nowhere => infer_instance

instance pushValue (i : Int) : Local (pushValue i) := by
  unfold Exec.pushValue Exec.push
  infer_instance

instance popMany (n : Nat) : Local (popMany n) := by
  unfold Exec.popMany
  infer_instance

instance pop : Local pop := by
  unfold Exec.pop
  infer_instance

instance rotate (i n : Int) : Local (rotate i n) := by
  unfold Exec.rotate absIndex
  infer_instance

instance gather (a : Nat) : Local (gather a) := by
  unfold Exec.gather marker Exec.drop
  infer_instance

instance pushCall (a b : Nat) : Local (pushCall a b) := by
  unfold Exec.pushCall top
  cases b <;> infer_instance

instance callTarget (n : Nat) (v : Value) (args : List Value) : Local (callTarget n v args) where
  touches {m m' p} h := by
    rcases callTarget_cases n v args m with ⟨q, hq⟩ | ⟨e, -, he⟩
    · rw [hq] at h
      cases h
      exact .refl _
    · rw [he] at h
      cases h

instance fetch : Local fetch := by
  unfold Exec.fetch
  refine bind inferInstance fun pc => bind inferInstance fun i? => ?_
  cases i? <;> infer_instance

end Local
end Exec
end LuaMachine
