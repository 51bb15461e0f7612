import LuaMachine.Proofs.Upvalue.History

namespace LuaMachine

def Thread.capturedAt (th : Thread) (level : Nat) : List (Nat × UpvalueId) :=
  ((th.frames[level]?).map Frame.captured).getD []

namespace Machine

/-- A live frame, that of the register, has registered an upvalue under the register's slot. -/
def Registered (m : Machine) (u : UpvalueId) (p : Register) : Prop :=
  (p.slot, u) ∈ (m.threadAt p.thread).capturedAt p.level

/-- The open upvalues are those registered, each in one frame and under one slot, and a frame has
one upvalue for a slot at most. -/
structure Captures (m : Machine) : Prop where
  opened : ∀ u p, m.Registered u p ↔ m.upvalues[u.index]? = some (.opened p)
  slots : ∀ t level, (((m.threadAt t).capturedAt level).map Prod.fst).Nodup

theorem Captures.of_empty {m : Machine} (hu : m.upvalues = #[])
    (hf : ∀ t, (m.threadAt t).frames.toList.all (·.captured.isEmpty)) : m.Captures := by
  have hc : ∀ t level, (m.threadAt t).capturedAt level = [] := fun t level => by
    rw [Thread.capturedAt]
    cases he : (m.threadAt t).frames[level]? with
    | none => rfl
    | some f =>
      have hm : f ∈ (m.threadAt t).frames.toList := Array.mem_toList_iff.mpr (Array.mem_of_getElem? he)
      exact List.isEmpty_iff.mp (List.all_eq_true.mp (hf t) f hm)
  refine ⟨fun u p => ?_, fun t level => ?_⟩
  · rw [Registered, hc, hu]
    simp
  · rw [hc]
    exact List.nodup_nil

theorem Captures.new (limits : Limits) : (Machine.new limits).Captures :=
  .of_empty rfl fun t => by
    match t with
    | ⟨0⟩ | ⟨_ + 1⟩ => rfl

variable {m m' : Machine} {t : ThreadId} {level : Nat}

theorem capturedAt_modify (m : Machine) (t : ThreadId) {g : Thread → Thread}
    (hg : ∀ th level, (g th).capturedAt level = th.capturedAt level) (t' : ThreadId) (level : Nat) :
    (({ m with threads := m.threads.modify t.index g } : Machine).threadAt t').capturedAt level =
      (m.threadAt t').capturedAt level := by
  rw [threadAt_modify]
  split
  · exact hg _ _
  · rfl

theorem capturedAt_modifyLevel (m : Machine) (t : ThreadId) (n : Nat) {g : Frame → Frame}
    (hg : ∀ f, (g f).captured = f.captured) (t' : ThreadId) (level : Nat) :
    ((m.modifyLevel t n g).threadAt t').capturedAt level = (m.threadAt t').capturedAt level := by
  refine m.capturedAt_modify t (fun th level => ?_) t' level
  simp only [Thread.capturedAt, modifyFrames, Array.getElem?_modify]
  split
  · rw [Option.map_map, show Frame.captured ∘ g = Frame.captured from funext hg]
  · rfl

theorem capturedAt_enterFrame (m : Machine) (t : ThreadId) {f : Frame} (hf : f.captured = [])
    (t' : ThreadId) (level : Nat) :
    ((m.enterFrame t f).threadAt t').capturedAt level = (m.threadAt t').capturedAt level := by
  refine m.capturedAt_modify t (fun th level => ?_) t' level
  simp only [Thread.capturedAt, Array.getElem?_push]
  split
  · next h =>
    rw [h, Array.getElem?_eq_none (Nat.le_refl _), Option.map_some, hf]
    rfl
  · rfl

theorem capturedAt_push (m : Machine) (t : ThreadId) (level : Nat) :
    (({ m with threads := m.threads.push {} } : Machine).threadAt t).capturedAt level =
      (m.threadAt t).capturedAt level := by
  unfold threadAt
  simp only [Array.getD_eq_getD_getElem?, Array.getElem?_push]
  split
  · next h =>
    rw [h, Array.getElem?_eq_none (Nat.le_refl _)]
    rfl
  · rfl

theorem capturedAt_frameAt (m : Machine) (t : ThreadId) :
    (m.threadAt t).capturedAt ((m.threadAt t).frames.size - 1) = (m.frameAt t).captured := by
  rw [Thread.capturedAt, frameAt, Array.back?]
  cases (m.threadAt t).frames[(m.threadAt t).frames.size - 1]? <;> rfl

theorem exists_frameAt (h : (m.frameAt t).function ≠ none) :
    t.index < m.threads.size ∧
      (m.threadAt t).frames[(m.threadAt t).frames.size - 1]? = some (m.frameAt t) := by
  refine ⟨Nat.not_le.mp fun hc => h ?_, ?_⟩
  · rw [frameAt, threadAt_of_le hc]
    rfl
  · rw [frameAt, Array.back?] at h ⊢
    cases hf : (m.threadAt t).frames[(m.threadAt t).frames.size - 1]? with
    | none =>
      rw [hf] at h
      exact absurd rfl h
    | some f => rfl

theorem capturedAt_modifyTop (ht : t.index < m.threads.size) (g : Frame → Frame) (t' : ThreadId)
    (level : Nat) : ((m.modifyTop t g).threadAt t').capturedAt level =
      if t' = t ∧ level = (m.threadAt t).frames.size - 1
      then (((m.threadAt t).frames[level]?).map fun f => (g f).captured).getD []
      else (m.threadAt t').capturedAt level := by
  unfold modifyTop
  rw [threadAt_modify]
  by_cases he : t' = t
  · subst he
    rw [if_pos ⟨rfl, ht⟩]
    simp only [Thread.capturedAt, modifyFrames, Array.getElem?_modify, true_and, eq_comm (a := level)]
    split
    · rw [Option.map_map]
      rfl
    · rfl
  · rw [if_neg fun hc => he hc.1, if_neg fun hc => he hc.1]

theorem capturedAt_capturing (m : Machine) (slot : Nat) (h : (m.frameAt t).function ≠ none)
    (t' : ThreadId) (level : Nat) : ((m.capturing t slot).threadAt t').capturedAt level =
      if t' = t ∧ level = (m.threadAt t).frames.size - 1
      then (slot, ⟨m.upvalues.size⟩) :: (m.frameAt t).captured
      else (m.threadAt t').capturedAt level := by
  obtain ⟨ht, hf⟩ := exists_frameAt h
  refine (capturedAt_modifyTop (m := { m with upvalues := m.upvalues.push _ }) ht _ t' level).trans ?_
  change (if t' = t ∧ level = (m.threadAt t).frames.size - 1 then _ else _) = _
  split
  · next he =>
    rw [he.2]
    change ((m.threadAt t).frames[(m.threadAt t).frames.size - 1]?.map _).getD [] = _
    rw [hf]
    rfl
  · rfl

theorem capturedAt_closedFrom (m : Machine) (t : ThreadId) (start : Nat) (t' : ThreadId)
    (level : Nat) : ((m.closedFrom t start).threadAt t').capturedAt level =
      if t' = t ∧ level = (m.threadAt t).frames.size - 1
      then (m.frameAt t).captured.filter (·.1 < start)
      else (m.threadAt t').capturedAt level := by
  by_cases ht : t.index < m.threads.size
  · refine (capturedAt_modifyTop (m := m.closeAll _) ht _ t' level).trans ?_
    change (if t' = t ∧ level = (m.threadAt t).frames.size - 1 then _ else _) = _
    split
    · next he =>
      rw [he.2, frameAt, Array.back?]
      change ((m.threadAt t).frames[(m.threadAt t).frames.size - 1]?.map _).getD [] = _
      cases (m.threadAt t).frames[(m.threadAt t).frames.size - 1]? <;> rfl
    · rfl
  · have hc : ((m.closedFrom t start).threadAt t') = m.threadAt t' := by
      unfold closedFrom modifyTop
      rw [threadAt_modify, if_neg fun hc => ht hc.2]
      rfl
    rw [hc]
    split
    · next he =>
      rw [he.1, he.2, capturedAt_frameAt, frameAt, threadAt_of_le (Nat.le_of_not_lt ht)]
      rfl
    · rfl

theorem capturedAt_leaveFrame (m : Machine) (t t' : ThreadId) (level : Nat) :
    ((m.leaveFrame t).threadAt t').capturedAt level =
      if t' = t ∧ level = (m.threadAt t).frames.size - 1 then []
      else (m.threadAt t').capturedAt level := by
  rw [threadAt_leaveFrame]
  by_cases he : t' = t
  · subst he
    split
    · simp only [Thread.capturedAt, Array.getElem?_pop, true_and]
      by_cases hl : level < (m.threadAt t').frames.size - 1
      · rw [if_pos hl, if_neg (Nat.ne_of_lt hl)]
      · rw [if_neg hl]
        split
        · rfl
        · rw [Array.getElem?_eq_none (by omega)]
    · next hn =>
      have ht : m.threadAt t' = default :=
        threadAt_of_le (Nat.le_of_not_lt fun hc => hn ⟨rfl, hc⟩)
      rw [ht]
      split <;> cases level <;> rfl
  · rw [if_neg fun hc => he hc.1, if_neg fun hc => he hc.1]

theorem getElem?_closed {u : UpvalueId} {w : Value} (h : m.upvalueAt u = .closed w) :
    m.upvalues[u.index]? = some (.closed w) := by
  rw [upvalueAt, Array.getD_eq_getD_getElem?] at h
  cases hu : m.upvalues[u.index]? with
  | none =>
    rw [hu] at h
    cases h
  | some x =>
    rw [hu] at h
    exact congrArg some h

theorem getElem?_closeAll (m : Machine) (l : List (Nat × UpvalueId)) (u : UpvalueId) :
    (m.closeAll l).upvalues[u.index]? = if u ∈ l.map Prod.snd then
      m.upvalues[u.index]?.map fun _ => .closed (m.upvalueValue u) else m.upvalues[u.index]? := by
  have hl : ∀ (us : Array Upvalue) (value : UpvalueId → Value),
      (l.foldl (fun us p => us.setIfInBounds p.2.index (.closed (value p.2))) us)[u.index]? =
        if u ∈ l.map Prod.snd then us[u.index]?.map fun _ => .closed (value u)
        else us[u.index]? := by
    induction l with
    | nil => exact fun _ _ => rfl
    | cons p l ih =>
      intro us value
      rw [List.foldl_cons, ih, Array.getElem?_setIfInBounds]
      simp only [List.map_cons, List.mem_cons]
      by_cases he : u = p.2
      · subst he
        by_cases hs : p.2.index < us.size
        · simp [hs]
        · simp [hs]
      · have hi : p.2.index ≠ u.index := fun hi => he (congrArg UpvalueId.mk hi.symm)
        simp only [hi, he, if_false, false_or]
  exact hl m.upvalues m.upvalueValue

theorem Captures.register_eq (h : m.Captures) {u : UpvalueId} {p p' : Register}
    (hp : m.Registered u p) (hp' : m.Registered u p') : p = p' := by
  have he := ((h.opened u p).mp hp).symm.trans ((h.opened u p').mp hp')
  simpa using he

theorem Captures.unregister (h : m.Captures) (t : ThreadId) (level : Nat) (keep : Nat → Bool)
    (hc : ∀ t' level', (m'.threadAt t').capturedAt level' = if t' = t ∧ level' = level
      then ((m.threadAt t).capturedAt level).filter (keep ·.1)
      else (m.threadAt t').capturedAt level')
    (hu : m'.upvalues =
      (m.closeAll (((m.threadAt t).capturedAt level).filter (!keep ·.1))).upvalues) :
    m'.Captures := by
  have hr : ∀ u p, m'.Registered u p ↔
      m.Registered u p ∧ (p.thread = t ∧ p.level = level → keep p.slot) := by
    intro u p
    unfold Registered
    rw [hc]
    split
    · next he => simp [List.mem_filter, he]
    · next he => simp [he]
  have hl : ∀ u, u ∈ (((m.threadAt t).capturedAt level).filter (!keep ·.1)).map Prod.snd ↔
      ∃ s, (s, u) ∈ (m.threadAt t).capturedAt level ∧ keep s = false := by
    simp [List.mem_map, List.mem_filter]
  have hopened : ∀ u p, m'.upvalues[u.index]? = some (.opened p) ↔
      m.upvalues[u.index]? = some (.opened p) ∧
        ∀ s, (s, u) ∈ (m.threadAt t).capturedAt level → keep s := by
    intro u p
    rw [hu, getElem?_closeAll]
    split
    · next hm =>
      obtain ⟨s, hs, hk⟩ := (hl u).mp hm
      refine ⟨fun hp => ?_, fun hp => absurd (hp.2 s hs) (by simp [hk])⟩
      obtain ⟨_, _, hp⟩ := Option.map_eq_some_iff.mp hp
      cases hp
    · next hm =>
      refine ⟨fun hp => ⟨hp, fun s hs => ?_⟩, fun hp => hp.1⟩
      exact Bool.not_eq_false _ ▸ fun hk => hm ((hl u).mpr ⟨s, hs, hk⟩)
  refine ⟨fun u p => ?_, fun t' level' => ?_⟩
  · rw [hr, hopened, ← h.opened]
    -- an upvalue is registered under one slot only, so it stays open just where it stays registered
    refine and_congr_right fun hp => ⟨fun hk s hs => ?_, fun hk he => ?_⟩
    · have he : p = ⟨t, level, s⟩ := h.register_eq hp hs
      subst he
      exact hk ⟨rfl, rfl⟩
    · obtain ⟨t', level', s⟩ := p
      obtain ⟨rfl, rfl⟩ := he
      exact hk s hp
  · rw [hc]
    split
    · exact (h.slots t level).sublist (List.filter_sublist.map _)
    · exact h.slots t' level'

theorem Captures.congr (h : m.Captures)
    (hc : ∀ t level, (m'.threadAt t).capturedAt level = (m.threadAt t).capturedAt level)
    (hu : ∀ (i : Nat) p, m'.upvalues[i]? = some (.opened p) ↔ m.upvalues[i]? = some (.opened p)) :
    m'.Captures := by
  refine ⟨fun u p => ?_, fun t level => ?_⟩
  · rw [Registered, hc, hu]
    exact h.opened u p
  · rw [hc]
    exact h.slots t level

theorem Captures.capturing (h : m.Captures) (slot : Nat) (hf : (m.frameAt t).function ≠ none)
    (hs : ∀ p ∈ (m.frameAt t).captured, p.1 ≠ slot) : (m.capturing t slot).Captures := by
  have hc := m.capturedAt_capturing slot hf
  have ho : ∀ (u : UpvalueId) p, (m.capturing t slot).upvalues[u.index]? = some (.opened p) ↔
      (u = ⟨m.upvalues.size⟩ ∧ p = ⟨t, (m.threadAt t).frames.size - 1, slot⟩) ∨
        m.upvalues[u.index]? = some (.opened p) := by
    intro u p
    change (m.upvalues.push _)[u.index]? = _ ↔ _
    rw [Array.getElem?_push]
    split
    · next hi =>
      have hu : u = ⟨m.upvalues.size⟩ := congrArg UpvalueId.mk hi
      simp [hu, eq_comm]
    · next hi =>
      have hu : u ≠ ⟨m.upvalues.size⟩ := fun hu => hi (congrArg UpvalueId.index hu)
      simp [hu]
  refine ⟨fun u p => ?_, fun t' level => ?_⟩
  · rw [ho, ← h.opened, Registered, Registered, hc]
    obtain ⟨t', level, s⟩ := p
    split
    · next he =>
      obtain ⟨rfl, rfl⟩ : t' = t ∧ level = (m.threadAt t).frames.size - 1 := he
      rw [capturedAt_frameAt]
      simp [and_comm]
    · next he => simp_all
  · rw [hc]
    split
    · next he =>
      have hn := h.slots t ((m.threadAt t).frames.size - 1)
      rw [capturedAt_frameAt] at hn
      refine List.nodup_cons.mpr ⟨fun hm => ?_, hn⟩
      obtain ⟨p, hp, he⟩ := List.mem_map.mp hm
      exact hs p hp he
    · exact h.slots t' level

/-- Every change keeps the invariant. -/
theorem Change.captures {es : Assignments} (c : Change es m m') (h : m.Captures) : m'.Captures := by
  cases c with
  | aside ht hu _ => exact h.congr (fun t level => by rw [threadAt, ht]; rfl) fun i p => by rw [hu]
  | newThread => exact h.congr (capturedAt_push m) fun _ _ => .rfl
  | fields t g =>
    refine h.congr (capturedAt_modify m t fun th level => ?_) fun _ _ => .rfl
    rw [Thread.capturedAt, Thread.Plain.frames]
    rfl
  | frame t level g hg => exact h.congr (capturedAt_modifyLevel m t level hg) fun _ _ => .rfl
  | enter t f hf => exact h.congr (capturedAt_enterFrame m t hf) fun _ _ => .rfl
  | leave t =>
    refine h.unregister t ((m.threadAt t).frames.size - 1) (fun _ => false) (fun t' level => ?_) ?_
    · rw [capturedAt_leaveFrame, List.filter_eq_nil_iff.mpr fun _ _ => Bool.false_ne_true]
    · have hl : (m.frameAt t).captured.filter (fun _ => !false) = (m.frameAt t).captured :=
        List.filter_eq_self.mpr fun _ _ => rfl
      rw [capturedAt_frameAt, hl]
      rfl
  | newVariable v =>
    refine h.congr (fun _ _ => rfl) fun i p => ?_
    change (m.upvalues.push (.closed v))[i]? = _ ↔ _
    rw [Array.getElem?_push]
    split
    · next hi => simp [hi]
    · exact .rfl
  | capture t slot hf hs => exact h.capturing slot hf hs
  | close t start =>
    refine h.unregister t ((m.threadAt t).frames.size - 1) (· < start) (fun t' level => ?_) ?_
    · rw [capturedAt_closedFrom, capturedAt_frameAt]
    · rw [capturedAt_frameAt]
      have hk : ∀ p : Nat × UpvalueId, (!decide (p.1 < start)) = decide (start ≤ p.1) := fun p => by
        rw [← decide_not, decide_eq_decide, Nat.not_lt]
      simp only [hk]
      rfl
  | assignRegister u p v _ =>
    exact h.congr (capturedAt_modifyLevel m p.thread p.level fun _ => rfl) fun _ _ => .rfl
  | assignVariable u v w hu =>
    refine h.congr (fun _ _ => rfl) fun i p => ?_
    change (m.upvalues.setIfInBounds u.index (.closed v))[i]? = _ ↔ _
    rw [Array.getElem?_setIfInBounds]
    split
    · next hi => simp [← hi, getElem?_closed hu]
    · exact .rfl

theorem History.captures {es : Assignments} (hist : m.History es m') (h : m.Captures) :
    m'.Captures := by
  induction hist with
  | start => exact h
  | next _ change ih => exact change.captures ih

end LuaMachine.Machine
