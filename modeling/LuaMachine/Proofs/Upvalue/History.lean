import LuaMachine.Proofs.Invariant.Foreign

namespace LuaMachine

namespace Machine

/-- The captured variables that are assigned to, with their new values, the earliest first. -/
abbrev Assignments := List (UpvalueId × Value)

/-- An elementary change, and the assignment to a captured variable that it is, if it is one. -/
inductive Change : Assignments → Machine → Machine → Prop
  | aside {m m' : Machine} (threads : m'.threads = m.threads) (upvalues : m'.upvalues = m.upvalues)
      (functions : m.functions.toList <+: m'.functions.toList) : Change [] m m'
  | newThread {m : Machine} : Change [] m { m with threads := m.threads.push {} }
  | fields {m : Machine} (t : ThreadId) (g : Thread → Thread) [Thread.Plain g] :
      Change [] m { m with threads := m.threads.modify t.index g }
  | frame {m : Machine} (t : ThreadId) (level : Nat) (g : Frame → Frame) [Frame.Benign g]
      (captured : ∀ f, (g f).captured = f.captured) : Change [] m (m.modifyLevel t level g)
  | enter {m : Machine} (t : ThreadId) (f : Frame) (captured : f.captured = []) :
      Change [] m (m.enterFrame t f)
  | leave {m : Machine} (t : ThreadId) : Change [] m (m.leaveFrame t)
  | newVariable {m : Machine} (v : Value) :
      Change [] m { m with upvalues := m.upvalues.push (.closed v) }
  | capture {m : Machine} (t : ThreadId) (slot : Nat) (function : (m.frameAt t).function ≠ none)
      (fresh : ∀ p ∈ (m.frameAt t).captured, p.1 ≠ slot) : Change [] m (m.capturing t slot)
  | close {m : Machine} (t : ThreadId) (start : Nat) : Change [] m (m.closedFrom t start)
  | assignRegister {m : Machine} (u : UpvalueId) (p : Register) (v : Value)
      (opened : m.upvalueAt u = .opened p) :
      Change [(u, v)] m (m.modifyLevel p.thread p.level (·.setSlot p.slot v))
  | assignVariable {m : Machine} (u : UpvalueId) (v w : Value) (closed : m.upvalueAt u = .closed w) :
      Change [(u, v)] m { m with upvalues := m.upvalues.setIfInBounds u.index (.closed v) }

inductive History (m : Machine) : Assignments → Machine → Prop
  | start : History m [] m
  | next {es es' : Assignments} {m₁ m₂ : Machine} (before : History m es m₁)
      (change : Change es' m₁ m₂) : History m (es ++ es') m₂

end Machine

open Machine

def Outcome.Follows {α : Type} (m : Machine) : Outcome α → Prop
  | .done _ m' | .raised _ m' => ∃ es, m.History es m'
  | .exhausted => True

namespace Condition

def Since (m₀ : Machine) : Condition := fun _ _ m => ∃ es, m₀.History es m

variable {m₀ m m' : Machine} {r r' : ThreadId} {y y' : Bool}

theorem Since.next {es : Assignments} (h : Since m₀ r y m) (c : Change es m m') :
    Since m₀ r' y' m' :=
  ⟨_, .next h.choose_spec c⟩

theorem Since.aside (h : Since m₀ r y m) (ht : m'.threads = m.threads)
    (hu : m'.upvalues = m.upvalues) (hf : m'.functions = m.functions) : Since m₀ r' y' m' :=
  h.next (.aside ht hu (hf ▸ List.prefix_rfl))

theorem Since.top (h : Since m₀ r y m) (t : ThreadId) (g : Frame → Frame) [Frame.Benign g]
    (hg : ∀ f, (g f).captured = f.captured) : Since m₀ r' y' (m.modifyTop t g) := by
  rw [modifyTop_eq]
  exact h.next (.frame t _ g hg)

instance Since.deaf : (Since m₀).Deaf := ⟨fun _ => .rfl⟩

theorem Since.away (h : Since m₀ r y m) : (Since m₀).away r false m := ⟨⟨rfl, h⟩, fun _ h => h⟩

instance Since.stable : (Since m₀).Stable where
  heap _ _ ht hu hf _ h := h.next (.aside ht hu hf)
  closed v h := h.next (.newVariable v)
  assigned u v w hu h := h.next (.assignVariable u v w hu)
  closing start h := h.next (.close _ start)
  capturing slot hf hs h := h.next (.capture _ slot hf.function_ne_none hs)
  top t g hg h := h.top t g hg.captured
  frame _ _ g hg _ h := h.next (.frame _ _ g hg.captured)
  register u p v hu h := h.next (.assignRegister u p v (upvalueAt_of hu))
  thread h := h.next .newThread
  transfer _ h := h.next (.fields _ _)
  inThread t x hx := ⟨fun m h => by
    have ht : Since m₀ t false (m.taking t) := Since.aside (r := t) (y := false)
      (h.2.next (.fields t fun th => { th with parked := false })) rfl rfl rfl
    refine Exec.ends_inThread h (fun _ => hx.ends _ ht.away) fun y m' _ hm' => ⟨hm'.1.1, ?_⟩
    exact Since.aside (r := t) (y := false)
      (hm'.1.2.next (.fields t fun th => { th with parked := true })) rfl rfl rfl⟩

instance Since.foreign : (Since m₀).Foreign where
  thread g _ h := h.next (.fields _ g)
  guard _ h := h.top _ _ fun _ => rfl
  enter f hf _ h := h.next (.enter _ f hf)
  leave h := h.next (.leave _)
  phase t _ h := h.next (.fields t _)

end Condition

theorem Outcome.Ends.follows {α : Type} {o : Outcome α} {m : Machine} {r : ThreadId}
    (h : o.Ends (Condition.Since m) r) : o.Follows m := by
  cases o with
  | done a m' | raised e m' => exact h.2
  | exhausted => trivial

theorem Exec.Keeps.follows {α : Type} {m : Machine} {x : Exec α}
    (hx : Exec.Keeps (Condition.Since m) x) : (x m).Follows m :=
  (hx.ends m ⟨[], .start⟩).follows

end LuaMachine
