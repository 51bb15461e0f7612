import LuaMachine.Proofs.Upvalue.Instruction

namespace LuaMachine

open Machine Exec

/-- The frames of thread `t` from level `n` on are gone. The upvalues that they have registered are
closed, each with what was in its register last; all others stay as they are. -/
structure Machine.Closes (m : Machine) (t : ThreadId) (n : Nat) (us : Array Upvalue) : Prop where
  closed : ∀ u p, m.Registered u p → p.thread = t → n ≤ p.level →
    us[u.index]? = some (.closed (m.registerValue p))
  others : ∀ u : UpvalueId, (∀ p, m.Registered u p → p.thread = t → p.level < n) →
    us[u.index]? = m.upvalues[u.index]?

namespace Machine

variable {m : Machine} {t : ThreadId} {n : Nat} {us : Array Upvalue}

theorem registered_leaveFrame (m : Machine) (t : ThreadId) (u : UpvalueId) (p : Register) :
    (m.leaveFrame t).Registered u p ↔
      m.Registered u p ∧ ¬(p.thread = t ∧ p.level = (m.threadAt t).frames.size - 1) := by
  rw [Registered, capturedAt_leaveFrame]
  split
  · next h => simp [h]
  · next h => simp [h, Registered]

theorem mem_captured (h : m.Captures) {u : UpvalueId} {p : Register} :
    m.Registered u p ∧ p.thread = t ∧ p.level = (m.threadAt t).frames.size - 1 →
      u ∈ (m.frameAt t).captured.map Prod.snd ∧ m.upvalueValue u = m.registerValue p := by
  rintro ⟨hr, rfl, hl⟩
  refine ⟨?_, upvalueValue_opened (upvalueAt_of ((h.opened u p).mp hr))⟩
  rw [Registered, hl, capturedAt_frameAt] at hr
  exact List.mem_map_of_mem hr

theorem Closes.leaveFrame (h : m.Captures) (hn : n < (m.threadAt t).frames.size)
    (hc : (m.leaveFrame t).Closes t n us) : m.Closes t n us where
  closed u p hr ht hl := by
    by_cases hp : p.level = (m.threadAt t).frames.size - 1
    · obtain ⟨hm, hv⟩ := mem_captured h ⟨hr, ht, hp⟩
      have hu : (m.leaveFrame t).upvalues[u.index]? = some (.closed (m.registerValue p)) := by
        have he := m.getElem?_closeAll (m.frameAt t).captured u
        rw [if_pos hm, (h.opened u p).mp hr, Option.map_some, hv] at he
        exact he
      rw [hc.others u fun p' hr' _ => ?_, hu]
      have ho := ((Change.leave t).captures h).opened u p' |>.mp hr'
      rw [hu] at ho
      cases ho
    · have hp : ¬(p.thread = t ∧ p.level = (m.threadAt t).frames.size - 1) := fun h => hp h.2
      rw [hc.closed u p ((m.registered_leaveFrame t u p).mpr ⟨hr, hp⟩) ht hl,
        m.registerValue_leaveFrame t hp]
  others u hu := by
    have hm : u ∉ (m.frameAt t).captured.map Prod.snd := fun hm => by
      obtain ⟨⟨s, u⟩, hc, rfl⟩ := List.mem_map.mp hm
      rw [← capturedAt_frameAt] at hc
      have hr : m.Registered u ⟨t, (m.threadAt t).frames.size - 1, s⟩ := hc
      have hl : (m.threadAt t).frames.size - 1 < n := hu _ hr rfl
      omega
    have he := m.getElem?_closeAll (m.frameAt t).captured u
    rw [if_neg hm] at he
    rw [hc.others u fun p hr ht => hu p ((m.registered_leaveFrame t u p).mp hr).1 ht]
    exact he

end Machine

theorem Exec.popFrames_closes (k : Nat) {m m' : Machine} (h : m.Captures)
    (ht : m.running.index < m.threads.size) (hk : k ≤ m.frameCount)
    (he : popFrames k m = .done () m') :
    m.Closes m.running (m.frameCount - k) m'.upvalues := by
  induction k generalizing m with
  | zero =>
    cases he
    refine ⟨fun u p hr ht hl => ?_, fun _ _ => rfl⟩
    obtain ⟨-, f, hf⟩ := hr.exists_frame
    have hl : (m'.threadAt p.thread).frames.size ≤ p.level := ht ▸ hl
    rw [Array.getElem?_eq_none hl] at hf
    cases hf
  | succ k ih =>
    have hs : (m.leaveFrame m.running).frameCount = m.frameCount - 1 := by
      change ((m.leaveFrame m.running).threadAt m.running).frames.size = m.frameCount - 1
      rw [threadAt_leaveFrame, if_pos ⟨rfl, ht⟩, Array.size_pop]
      rfl
    have ht' : m.running.index < (m.leaveFrame m.running).threads.size :=
      Nat.lt_of_lt_of_eq ht (Array.size_modify ..).symm
    rw [popFrames, run_bind, popFrame_eq] at he
    have hc := ih ((Change.leave m.running).captures h) ht' (by omega) he
    rw [hs, Nat.sub_sub, Nat.add_comm 1] at hc
    exact hc.leaveFrame h (by change _ < m.frameCount; omega)

theorem Exec.truncateFrames_closes (n : Nat) {m m' : Machine} (h : m.Captures)
    (ht : m.running.index < m.threads.size) (hn : n ≤ m.frameCount)
    (he : truncateFrames n m = .done () m') : m.Closes m.running n m'.upvalues := by
  have hc := popFrames_closes (m.frameCount - n) h ht (Nat.sub_le ..) he
  rwa [Nat.sub_sub_self hn] at hc

end LuaMachine
