import LuaMachine.Proofs.Upvalue.Captures

namespace LuaMachine.Machine

/-- The value of a variable after assignments, some of them to other variables. -/
def lastAssigned (u : UpvalueId) (v : Value) (es : Assignments) : Value :=
  es.foldl (fun v e => if e.1 = u then e.2 else v) v

def registerValue (m : Machine) (p : Register) : Value :=
  (((m.threadAt p.thread).frames[p.level]?).map (·.slot p.slot)).getD .nil

variable {m m' : Machine} {t : ThreadId} {u : UpvalueId} {p : Register} {w : Value}
  {es : Assignments}

theorem lastAssigned_append (u : UpvalueId) (v : Value) (es es' : Assignments) :
    lastAssigned u v (es ++ es') = lastAssigned u (lastAssigned u v es) es' := List.foldl_append

theorem upvalueValue_opened (h : m.upvalueAt u = .opened p) :
    m.upvalueValue u = m.registerValue p := by
  rw [upvalueValue, h, aliasedWindow?, Upvalue.get, Option.map_map]
  rfl

theorem upvalueValue_closed (h : m.upvalueAt u = .closed w) : m.upvalueValue u = w := by
  rw [upvalueValue, h]
  rfl

theorem Change.closed (c : Change es m m') (hu : m.upvalues[u.index]? = some (.closed w)) :
    m'.upvalues[u.index]? = some (.closed (lastAssigned u w es)) := by
  have hlt : u.index < m.upvalues.size := (Array.getElem?_eq_some_iff.mp hu).1
  have hclose : ∀ l, (m.closeAll l).upvalues[u.index]? = some (.closed w) := fun l => by
    rw [getElem?_closeAll, hu, upvalueValue_closed (upvalueAt_of hu)]
    split <;> rfl
  cases c with
  | aside _ h _ => rw [h, hu]; rfl
  | newThread | fields | frame | enter => exact hu
  | leave t => exact hclose (m.frameAt t).captured
  | newVariable v =>
    change (m.upvalues.push _)[u.index]? = _
    rw [Array.getElem?_push, if_neg (Nat.ne_of_lt hlt), hu]
    rfl
  | capture t slot =>
    change (m.upvalues.push _)[u.index]? = _
    rw [Array.getElem?_push, if_neg (Nat.ne_of_lt hlt), hu]
    rfl
  | close t start => exact hclose ((m.frameAt t).captured.filter (start ≤ ·.1))
  | assignRegister u' p v ho =>
    have hne : u' ≠ u := fun he => by
      rw [he, upvalueAt_of hu] at ho
      cases ho
    have hl : lastAssigned u w [(u', v)] = w := if_neg hne
    rw [hl]
    exact hu
  | assignVariable u' v w' _ =>
    change (m.upvalues.setIfInBounds u'.index (.closed v))[u.index]? = _
    rw [Array.getElem?_setIfInBounds]
    by_cases he : u' = u
    · subst he
      simp [hlt, lastAssigned]
    · have hi : u'.index ≠ u.index := fun hi => he (congrArg UpvalueId.mk hi)
      simp [hi, hu, lastAssigned, he]

theorem Change.opened (c : Change es m m') (hu : m.upvalues[u.index]? = some (.opened p)) :
    m'.upvalues[u.index]? = some (.opened p) ∨
      es = [] ∧ m'.upvalues[u.index]? = some (.closed (m.registerValue p)) := by
  have hlt : u.index < m.upvalues.size := (Array.getElem?_eq_some_iff.mp hu).1
  have hclose : ∀ l, (m.closeAll l).upvalues[u.index]? = some (.opened p) ∨
      (m.closeAll l).upvalues[u.index]? = some (.closed (m.registerValue p)) := fun l => by
    rw [getElem?_closeAll, hu, upvalueValue_opened (upvalueAt_of hu)]
    split
    · exact .inr rfl
    · exact .inl rfl
  cases c with
  | aside _ h _ => exact .inl (h ▸ hu)
  | newThread | fields | frame | enter | assignRegister => exact .inl hu
  | leave t => exact (hclose (m.frameAt t).captured).imp_right fun h => ⟨rfl, h⟩
  | newVariable v =>
    change (m.upvalues.push _)[u.index]? = _ ∨ _
    rw [Array.getElem?_push, if_neg (Nat.ne_of_lt hlt)]
    exact .inl hu
  | capture t slot =>
    change (m.upvalues.push _)[u.index]? = _ ∨ _
    rw [Array.getElem?_push, if_neg (Nat.ne_of_lt hlt)]
    exact .inl hu
  | close t start =>
    exact (hclose ((m.frameAt t).captured.filter (start ≤ ·.1))).imp_right fun h => ⟨rfl, h⟩
  | assignVariable u' v w' ho =>
    have hne : u' ≠ u := fun he => by
      rw [he, upvalueAt_of hu] at ho
      cases ho
    have hi : u'.index ≠ u.index := fun hi => hne (congrArg UpvalueId.mk hi)
    change (m.upvalues.setIfInBounds u'.index (.closed v))[u.index]? = _ ∨ _
    rw [Array.getElem?_setIfInBounds, if_neg hi]
    exact .inl hu

theorem History.closed (h : m.History es m') (hu : m.upvalues[u.index]? = some (.closed w)) :
    m'.upvalues[u.index]? = some (.closed (lastAssigned u w es)) := by
  induction h with
  | start => exact hu
  | next _ change ih =>
    rw [lastAssigned_append]
    exact change.closed ih

theorem History.opened (h : m.History es m') (hu : m.upvalues[u.index]? = some (.opened p)) :
    m'.upvalues[u.index]? = some (.opened p) ∨
      ∃ before after m₁ m₂, es = before ++ after ∧ m.History before m₁ ∧ Change [] m₁ m₂ ∧
        m₂.History after m' ∧ m₁.upvalues[u.index]? = some (.opened p) ∧
        m₂.upvalues[u.index]? = some (.closed (m₁.registerValue p)) ∧
        m'.upvalues[u.index]? = some (.closed (lastAssigned u (m₁.registerValue p) after)) := by
  induction h with
  | start => exact .inl hu
  | next hist change ih =>
    rcases ih with ho | ⟨before, after, m₁, m₂, rfl, hb, hc, ha, ho, hw, hv⟩
    · rcases change.opened ho with ho' | ⟨rfl, hc⟩
      · exact .inl ho'
      · exact .inr ⟨_, [], _, _, rfl, hist, change, .start, ho, hc, hc⟩
    · refine .inr ⟨before, _, m₁, m₂, List.append_assoc .., hb, hc, .next ha change, ho, hw, ?_⟩
      rw [lastAssigned_append]
      exact change.closed hv

def Retains (m m' : Machine) : Prop :=
  ∀ u : UpvalueId, u.index < m.upvalues.size →
    u.index < m'.upvalues.size ∧ m'.upvalueValue u = m.upvalueValue u

theorem Retains.refl (m : Machine) : m.Retains m := fun _ h => ⟨h, rfl⟩

theorem Retains.trans {m₁ : Machine} (h : m.Retains m₁) (h' : m₁.Retains m') : m.Retains m' :=
  fun u hu => ⟨(h' u (h u hu).1).1, (h' u (h u hu).1).2.trans (h u hu).2⟩

theorem size_closeAll (m : Machine) (l : List (Nat × UpvalueId)) :
    (m.closeAll l).upvalues.size = m.upvalues.size := by
  have h : ∀ (us : Array Upvalue) (value : UpvalueId → Value), (l.foldl (fun us p =>
      us.setIfInBounds p.2.index (.closed (value p.2))) us).size = us.size := by
    induction l with
    | nil => exact fun _ _ => rfl
    | cons p l ih => exact fun us value => (ih _ value).trans Array.size_setIfInBounds
  exact h m.upvalues m.upvalueValue

theorem Retains.close {l : List (Nat × UpvalueId)} (hu : m'.upvalues = (m.closeAll l).upvalues)
    (hr : ∀ u p, m.upvalues[u.index]? = some (.opened p) → u ∉ l.map Prod.snd →
      m'.registerValue p = m.registerValue p) : m.Retains m' := by
  refine fun u hs => ⟨by rwa [hu, size_closeAll], ?_⟩
  have hc := m.getElem?_closeAll l u
  obtain ⟨x, hx⟩ : ∃ x, m.upvalues[u.index]? = some x := ⟨_, Array.getElem?_eq_getElem hs⟩
  rw [← hu, hx] at hc
  split at hc
  · exact upvalueValue_closed (upvalueAt_of hc)
  · next hl =>
    cases x with
    | opened p =>
      rw [upvalueValue_opened (upvalueAt_of hc), hr u p hx hl, upvalueValue_opened (upvalueAt_of hx)]
    | closed w => rw [upvalueValue_closed (upvalueAt_of hc), upvalueValue_closed (upvalueAt_of hx)]

theorem registerValue_modifyTop (m : Machine) (t : ThreadId) {g : Frame → Frame}
    (hg : ∀ f, (g f).window = f.window) (p : Register) :
    (m.modifyTop t g).registerValue p = m.registerValue p := by
  have hs : ∀ f, (g f).slot p.slot = f.slot p.slot := fun f => by rw [Frame.slot, hg, Frame.slot]
  unfold registerValue modifyTop
  rw [threadAt_modify]
  split
  · simp only [modifyFrames, Array.getElem?_modify]
    split
    · rw [Option.map_map, show (fun f => f.slot p.slot) ∘ g = (·.slot p.slot) from funext hs]
    · rfl
  · rfl

theorem Retains.modifyTop (m : Machine) (t : ThreadId) {g : Frame → Frame}
    (hg : ∀ f, (g f).window = f.window) : m.Retains (m.modifyTop t g) :=
  .close (l := []) rfl fun _ p _ _ => m.registerValue_modifyTop t hg p

theorem Retains.closedFrom (m : Machine) (t : ThreadId) (start : Nat) :
    m.Retains (m.closedFrom t start) := by
  refine .close (l := (m.frameAt t).captured.filter (start ≤ ·.1)) rfl fun u p _ _ => ?_
  rw [Machine.closedFrom, registerValue_modifyTop]
  · rfl
  · exact fun _ => rfl

theorem registerValue_leaveFrame (m : Machine) (t : ThreadId) {p : Register}
    (h : ¬(p.thread = t ∧ p.level = (m.threadAt t).frames.size - 1)) :
    (m.leaveFrame t).registerValue p = m.registerValue p := by
  rw [registerValue, registerValue, threadAt_leaveFrame]
  split
  · next ht =>
    have hp : p.level ≠ (m.threadAt t).frames.size - 1 := fun hp => h ⟨ht.1, hp⟩
    rw [Array.getElem?_pop, ht.1]
    split
    · rfl
    · rw [Array.getElem?_eq_none (by omega)]
  · rfl

theorem Retains.leaveFrame (h : m.Captures) (t : ThreadId) : m.Retains (m.leaveFrame t) := by
  refine .close (l := (m.frameAt t).captured) rfl fun u p hu hl => ?_
  refine m.registerValue_leaveFrame t fun hp => hl ?_
  have hr := (h.opened u p).mpr hu
  rw [Registered, hp.1, hp.2, capturedAt_frameAt] at hr
  exact List.mem_map_of_mem hr

end LuaMachine.Machine

namespace LuaMachine.Exec

open Machine

theorem popFrames_retains (n : Nat) {m : Machine} (h : m.Captures) :
    ∃ m', popFrames n m = .done () m' ∧ m'.Captures ∧ m.Retains m' := by
  induction n generalizing m with
  | zero => exact ⟨m, rfl, h, .refl m⟩
  | succ n ih =>
    obtain ⟨m', he, hc, hr⟩ := ih (Change.leave m.running |>.captures h)
    refine ⟨m', ?_, hc, (Retains.leaveFrame h m.running).trans hr⟩
    rw [popFrames, run_bind, popFrame_eq]
    exact he

theorem truncateFrames_retains (depth : Nat) {m : Machine} (h : m.Captures) :
    ∃ m', truncateFrames depth m = .done () m' ∧ m'.Captures ∧ m.Retains m' :=
  popFrames_retains (m.frameCount - depth) h

end LuaMachine.Exec
