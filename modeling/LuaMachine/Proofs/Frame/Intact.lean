import LuaMachine.Proofs.Invariant.Stable

namespace LuaMachine

namespace Frame

def control (f : Frame) : Frame := { f with window := #[] }

/-- The second frame is the first one, apart from registers that are aliased. -/
def Kept (aliased : Nat → Prop) (f g : Frame) : Prop :=
  g.control = f.control ∧ ∀ s < f.top, ¬aliased s → g.slot s = f.slot s

variable {aliased : Nat → Prop} {f g : Frame}

theorem Kept.top_eq (h : f.Kept aliased g) : g.top = f.top :=
  (congrArg Frame.top h.1 : g.control.top = f.control.top)

theorem Kept.refl : f.Kept aliased f := ⟨rfl, fun _ _ _ => rfl⟩

theorem slot_setSlot (f : Frame) (i s : Nat) (v : Value) :
    (f.setSlot i v).slot s = if i = s then v else f.slot s := Window.read_write ..

theorem Kept.setSlot (h : f.Kept aliased g) {i : Nat} (hi : aliased i) (v : Value) :
    f.Kept aliased (g.setSlot i v) := by
  refine ⟨h.1, fun s hs ha => ?_⟩
  have hne : i ≠ s := fun he => ha (he ▸ hi)
  rw [slot_setSlot, if_neg hne, h.2 s hs ha]

end Frame

namespace Machine

def Aliased (m : Machine) (t : ThreadId) (level slot : Nat) : Prop :=
  ∃ u : UpvalueId, m.upvalues[u.index]? = some (.opened ⟨t, level, slot⟩)

/-- The lowest `n` frames of a thread are the same in the second machine, apart from registers that
are aliased, and none of them has been captured since. -/
structure Intact (t : ThreadId) (n : Nat) (m₀ m : Machine) : Prop where
  functions : m₀.functions.toList <+: m.functions.toList
  aliases : ∀ i < n, ∀ s, m.Aliased t i s → m₀.Aliased t i s
  frames : ∀ i < n, ∀ f, (m₀.threadAt t).frames[i]? = some f →
    ∃ g, (m.threadAt t).frames[i]? = some g ∧ f.Kept (m₀.Aliased t i) g

variable {t : ThreadId} {n : Nat} {m₀ m m' : Machine}

theorem Intact.refl (t : ThreadId) (n : Nat) (m : Machine) : Intact t n m m where
  functions := List.prefix_rfl
  aliases _ _ _ h := h
  frames _ _ f hf := ⟨f, hf, .refl⟩

theorem Intact.trans (h : Intact t n m₀ m) (h' : Intact t n m m') : Intact t n m₀ m' where
  functions := h.functions.trans h'.functions
  aliases i hi s hs := h.aliases i hi s (h'.aliases i hi s hs)
  frames i hi f hf := by
    obtain ⟨g, hg, hfg⟩ := h.frames i hi f hf
    obtain ⟨k, hk, hgk⟩ := h'.frames i hi g hg
    refine ⟨k, hk, hgk.1.trans hfg.1, fun s hs ha => ?_⟩
    rw [hgk.2 s (hfg.top_eq ▸ hs) fun hs => ha (h.aliases i hi s hs), hfg.2 s hs ha]

theorem Intact.functionAt (h : Intact t n m₀ m) {f : FunctionId}
    (hf : f.index < m₀.functions.size) :
    f.index < m.functions.size ∧ m.functionAt f = m₀.functionAt f := by
  obtain ⟨rest, hr⟩ := h.functions
  have hs : m₀.functions.size ≤ m.functions.size := h.functions.length_le
  refine ⟨by omega, ?_⟩
  simp only [Machine.functionAt, Array.getD_eq_getD_getElem?, ← Array.getElem?_toList, ← hr]
  rw [List.getElem?_append_left (by simpa using hf)]

theorem Intact.mono (h : Intact t n m₀ m) {k : Nat} (hk : k ≤ n) : Intact t k m₀ m where
  functions := h.functions
  aliases i hi := h.aliases i (by omega)
  frames i hi := h.frames i (by omega)

theorem threadAt_modify (m : Machine) (t t' : ThreadId) (f : Thread → Thread) :
    ({ m with threads := m.threads.modify t.index f } : Machine).threadAt t' =
      if t' = t ∧ t.index < m.threads.size then f (m.threadAt t') else m.threadAt t' := by
  simp only [threadAt, Array.getD_eq_getD_getElem?, Array.getElem?_modify]
  by_cases h : t.index = t'.index
  · have ht : t' = t := by
      cases t; cases t'; simp_all
    subst ht
    by_cases hs : t'.index < m.threads.size <;> simp [hs]
  · have ht : t' ≠ t := fun e => h (e ▸ rfl)
    simp [h, ht]

theorem fields_modify {α : Type} (p : Thread → α) (m : Machine) (t t' : ThreadId)
    {g : Thread → Thread} (hg : ∀ th, p (g th) = p th) :
    p (({ m with threads := m.threads.modify t.index g } : Machine).threadAt t') =
      p (m.threadAt t') := by
  rw [threadAt_modify]
  split
  · exact hg _
  · rfl

theorem threadAt_modify_ne (m : Machine) {t t' : ThreadId} (h : t' ≠ t) (f : Thread → Thread) :
    ({ m with threads := m.threads.modify t.index f } : Machine).threadAt t' = m.threadAt t' := by
  rw [threadAt_modify, if_neg fun hc => h hc.1]

theorem threadAt_of_le {m : Machine} {t : ThreadId} (h : m.threads.size ≤ t.index) :
    m.threadAt t = default := by
  simp [threadAt, Array.getD_eq_getD_getElem?, Array.getElem?_eq_none h]

theorem index_lt (m : Machine) {t : ThreadId} (h : 1 < (m.threadAt t).frames.size) :
    t.index < m.threads.size := by
  refine Nat.not_le.mp fun hc => ?_
  rw [threadAt_of_le hc] at h
  exact absurd h (by decide)

theorem threadAt_modify_there (m : Machine) {t : ThreadId} (h : t.index < m.threads.size)
    (f : Thread → Thread) :
    ({ m with threads := m.threads.modify t.index f } : Machine).threadAt t = f (m.threadAt t) := by
  rw [threadAt_modify, if_pos ⟨rfl, h⟩]

theorem threadAt_modify_self (m : Machine) {t : ThreadId} (h : 1 < (m.threadAt t).frames.size)
    (f : Thread → Thread) :
    ({ m with threads := m.threads.modify t.index f } : Machine).threadAt t = f (m.threadAt t) :=
  m.threadAt_modify_there (m.index_lt h) f

theorem modify_same (m : Machine) (t : ThreadId) {f : Thread → Thread}
    (h : f (m.threadAt t) = m.threadAt t) : m.threads.modify t.index f = m.threads := by
  rw [m.modify_congr t (g := id) h]
  apply Array.ext_getElem?
  intro i
  rw [Array.getElem?_modify, Option.map_id]
  exact ite_self _

theorem modifyTop_eq (m : Machine) (t : ThreadId) (g : Frame → Frame) :
    m.modifyTop t g = m.modifyLevel t ((m.threadAt t).frames.size - 1) g := by
  unfold modifyTop modifyLevel
  congr 1
  exact m.modify_congr t rfl

theorem frameAt_modifyTop (m : Machine) (t : ThreadId) (g : Frame → Frame) :
    (m.modifyTop t g).frameAt t = g (m.frameAt t) ∨ (m.modifyTop t g).frameAt t = m.frameAt t := by
  unfold modifyTop frameAt
  rw [threadAt_modify]
  split
  · simp only [modifyFrames, Array.back?, Array.size_modify, Array.getElem?_modify]
    rw [if_pos trivial]
    cases (m.threadAt t).frames[(m.threadAt t).frames.size - 1]? with
    | none => exact .inr rfl
    | some f => exact .inl rfl
  · exact .inr rfl

theorem origin_modifyTop (m : Machine) (t : ThreadId) (g : Frame → Frame) [hg : Frame.Benign g] :
    ((m.modifyTop t g).frameAt t).origin = (m.frameAt t).origin := by
  rcases m.frameAt_modifyTop t g with h | h
  · rw [h, hg.origin]
  · rw [h]

theorem threadAt_leaveFrame (m : Machine) (t t' : ThreadId) : (m.leaveFrame t).threadAt t' =
    if t' = t ∧ t.index < m.threads.size
    then { m.threadAt t' with frames := (m.threadAt t').frames.pop } else m.threadAt t' :=
  ({ m with upvalues := (m.closeAll (m.frameAt t).captured).upvalues } : Machine).threadAt_modify
    t t' _

theorem threadAt_enterFrame (m : Machine) {t : ThreadId} (h : 1 < (m.threadAt t).frames.size)
    (f : Frame) : (m.enterFrame t f).threadAt t =
      { m.threadAt t with frames := (m.threadAt t).frames.push f } := threadAt_modify_self m h _

theorem threadAt_modifyTop (m : Machine) {t : ThreadId} (h : 1 < (m.threadAt t).frames.size)
    (g : Frame → Frame) : (m.modifyTop t g).threadAt t = { m.threadAt t with
      frames := modifyFrames ((m.threadAt t).frames.size - 1) g (m.threadAt t).frames } :=
  threadAt_modify_self m h _

theorem size_modifyFrames (level : Nat) (g : Frame → Frame) (frames : Array Frame) :
    (modifyFrames level g frames).size = frames.size := Array.size_modify ..

theorem size_modifyTop (m : Machine) (t t' : ThreadId) (g : Frame → Frame) :
    ((m.modifyTop t' g).threadAt t).frames.size = (m.threadAt t).frames.size := by
  rw [modifyTop, threadAt_modify]
  split
  · exact size_modifyFrames ..
  · rfl

theorem threadAt_push (m : Machine) {t : ThreadId} (h : 1 < (m.threadAt t).frames.size)
    (th : Thread) :
    ({ m with threads := m.threads.push th } : Machine).threadAt t = m.threadAt t := by
  have ht := m.index_lt h
  simp [threadAt, Array.getD_eq_getD_getElem?, Array.getElem?_push, Nat.ne_of_lt ht]

end Machine
end LuaMachine
