import LuaMachine.Proofs.Upvalue.Value

namespace LuaMachine

open Machine

def Thread.Captured (th th' : Thread) : Prop :=
  ∀ (i : Nat) (f' : Frame), th'.frames[i]? = some f' → f'.captured ≠ [] →
    ∃ (j : Nat) (f : Frame), th.frames[j]? = some f ∧ f.captured ≠ [] ∧ f'.function = f.function

namespace Thread.Captured

theorem ofFrames {th th' : Thread} (h : th'.frames = th.frames) : th.Captured th' :=
  fun i f' hf' hc => ⟨i, f', h ▸ hf', hc, rfl⟩

theorem modifyFrames (th : Thread) (level : Nat) {g : Frame → Frame}
    (hg : ∀ f, (g f).function = f.function) (hc : ∀ f, (g f).captured ≠ [] → f.captured ≠ []) :
    th.Captured { th with frames := LuaMachine.modifyFrames level g th.frames } := by
  intro i f' hf' hn
  simp only [LuaMachine.modifyFrames, Array.getElem?_modify] at hf'
  split at hf'
  · obtain ⟨f, hf, rfl⟩ := Option.map_eq_some_iff.mp hf'
    exact ⟨i, f, hf, hc f hn, hg f⟩
  · exact ⟨i, f', hf', hn, rfl⟩

theorem push (th : Thread) {f : Frame} (hf : f.captured = []) :
    th.Captured { th with frames := th.frames.push f } := by
  intro i f' hf' hn
  simp only [Array.getElem?_push] at hf'
  split at hf'
  · cases hf'
    exact absurd hf hn
  · exact ⟨i, f', hf', hn, rfl⟩

theorem pop (th : Thread) : th.Captured { th with frames := th.frames.pop } := by
  intro i f' hf' hn
  simp only [Array.getElem?_pop] at hf'
  split at hf'
  · exact ⟨i, f', hf', hn, rfl⟩
  · cases hf'

end Thread.Captured

namespace Machine

def BytecodeCaptures (m : Machine) : Prop :=
  ∀ (t : ThreadId) (i : Nat) (f : Frame), (m.threadAt t).frames[i]? = some f → f.captured ≠ [] →
    m.RunsBytecode f

namespace BytecodeCaptures

variable {m m' : Machine} {t : ThreadId}

theorem ofThreads (h : m.BytecodeCaptures) (hf : m.functions.toList <+: m'.functions.toList)
    (ht : ∀ t, (m.threadAt t).Captured (m'.threadAt t)) : m'.BytecodeCaptures := by
  intro t i g hg hc
  obtain ⟨j, f, hf', hc', he⟩ := ht t i g hg hc
  exact (h t j f hf' hc').mono hf he

theorem modify (h : m.BytecodeCaptures) (t : ThreadId) {g : Thread → Thread}
    (hg : ∀ th : Thread, th.Captured (g th)) :
    BytecodeCaptures { m with threads := m.threads.modify t.index g } := by
  refine h.ofThreads List.prefix_rfl fun t' => ?_
  rw [threadAt_modify]
  split
  · exact hg _
  · exact .ofFrames rfl

theorem aside (h : m.BytecodeCaptures) (ht : m'.threads = m.threads)
    (hf : m.functions.toList <+: m'.functions.toList) : m'.BytecodeCaptures :=
  h.ofThreads hf fun t => .ofFrames (by rw [threadAt, ht, threadAt])

theorem modifyLevel (h : m.BytecodeCaptures) (t : ThreadId) (level : Nat) {g : Frame → Frame}
    (hg : ∀ f, (g f).function = f.function) (hc : ∀ f, (g f).captured ≠ [] → f.captured ≠ []) :
    (m.modifyLevel t level g).BytecodeCaptures := h.modify t fun th => .modifyFrames th level hg hc

theorem modifyTop (h : m.BytecodeCaptures) (t : ThreadId) {g : Frame → Frame}
    (hg : ∀ f, (g f).function = f.function) (hc : ∀ f, (g f).captured ≠ [] → f.captured ≠ []) :
    (m.modifyTop t g).BytecodeCaptures := by
  rw [modifyTop_eq]
  exact h.modifyLevel t _ hg hc

theorem plain (h : m.BytecodeCaptures) (t : ThreadId) (level : Nat) (g : Frame → Frame)
    [hg : Frame.Plain g] : (m.modifyLevel t level g).BytecodeCaptures :=
  h.modifyLevel t level (fun f => congrArg Origin.function (hg.origin f)) fun f hn =>
    hg.captured f ▸ hn

theorem capturing (h : m.BytecodeCaptures) (slot : Nat) (hb : m.RunsBytecode (m.frameAt t)) :
    (m.capturing t slot).BytecodeCaptures := by
  intro t' i g hg hc
  unfold Machine.capturing Machine.modifyTop at hg
  rw [threadAt_modify] at hg
  split at hg
  · next ht =>
    obtain rfl := ht.1
    simp only [LuaMachine.modifyFrames, Array.getElem?_modify] at hg
    split at hg
    · next hi =>
      obtain ⟨f, hf, rfl⟩ := Option.map_eq_some_iff.mp hg
      have htop : f = m.frameAt t' := by
        change (m.threadAt t').frames.size - 1 = i at hi
        rw [frameAt, Array.back?, hi, show (m.threadAt t').frames[i]? = some f from hf]
        rfl
      exact hb.mono List.prefix_rfl (htop ▸ rfl)
    · exact h t' i g hg hc
  · exact h t' i g hg hc

theorem newThread (h : m.BytecodeCaptures) :
    BytecodeCaptures { m with threads := m.threads.push {} } := by
  intro t i f hf hc
  simp only [threadAt, Array.getD_eq_getD_getElem?, Array.getElem?_push] at hf
  split at hf
  · cases i with
    | zero =>
      cases hf
      exact absurd rfl hc
    | succ i => cases hf
  · exact h t i f (by simpa only [threadAt, Array.getD_eq_getD_getElem?] using hf) hc

theorem new (limits : Limits) : (Machine.new limits).BytecodeCaptures := by
  intro t i f hf hc
  match t, i with
  | ⟨0⟩, 0 | ⟨_ + 1⟩, 0 =>
    cases hf
    exact absurd rfl hc
  | ⟨0⟩, _ + 1 | ⟨_ + 1⟩, _ + 1 => cases hf

end BytecodeCaptures
end Machine

def Condition.Lexical : Condition := fun _ _ m => m.BytecodeCaptures

namespace Condition.Lexical

instance deaf : Lexical.Deaf := ⟨fun _ => .rfl⟩

instance stable : Lexical.Stable where
  heap _ _ ht _ hf _ h := h.aside ht hf
  closed _ h := h.aside rfl List.prefix_rfl
  assigned _ _ _ _ h := h.aside rfl List.prefix_rfl
  closing {r _ m} start h := BytecodeCaptures.modifyTop
    (h.aside rfl List.prefix_rfl : (m.closeAll _).BytecodeCaptures) r (fun _ => rfl)
    fun f hn hc => hn (by rw [hc]; rfl)
  capturing slot hb _ h := h.capturing slot hb
  top t g hg h := h.modifyTop t (fun f => congrArg Origin.function (hg.origin f)) fun f hn =>
    hg.captured f ▸ hn
  frame _ _ g _ _ h := h.plain _ _ g
  register _ p v _ h := h.plain p.thread p.level (·.setSlot p.slot v)
  thread h := h.newThread
  transfer _ h := h.modify _ fun _ => .ofFrames rfl
  inThread t x hx := ⟨fun m h => by
    have hp : ∀ {m : Machine} (parked : Bool), m.BytecodeCaptures → BytecodeCaptures { m with
        threads := m.threads.modify t.index fun th => { th with parked } } :=
      fun parked h => h.modify t fun _ => .ofFrames rfl
    have ht : (m.taking t).BytecodeCaptures := (hp false h.2).aside rfl List.prefix_rfl
    refine Exec.ends_inThread h (fun _ => hx.ends _ ⟨⟨rfl, ht⟩, fun _ h => h⟩)
      fun y m' _ hm' => ⟨hm'.1.1, ?_⟩
    exact (hp true hm'.1.2).aside rfl List.prefix_rfl⟩

instance foreign : Lexical.Foreign where
  thread _ hg h := h.modify _ fun th => .ofFrames (hg.frames th)
  guard _ h := h.modifyTop _ (fun _ => rfl) fun _ hn => hn
  enter _ hf _ h := h.modify _ fun th => .push th hf
  leave h := (BytecodeCaptures.modify h _ fun th => .pop th).aside rfl List.prefix_rfl
  phase t _ h := h.modify t fun _ => .ofFrames rfl

end Condition.Lexical
end LuaMachine
