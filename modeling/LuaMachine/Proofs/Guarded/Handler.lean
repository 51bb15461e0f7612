import LuaMachine.Proofs.Guarded.Start
import LuaMachine.Proofs.Results

namespace LuaMachine

open Machine Exec Relation

namespace Machine

def asking (m : Machine) (handler v : Value) : Machine :=
  (m.modifyTop m.running (·.push handler)).modifyTop m.running (·.push v)

end Machine

/-- The error object that a protected call answers with: what the handler makes of the error, or an
error about the handler if that fails. -/
inductive Caught (re : Reentry) (m : Machine) (e : Error) : Option Value → Value → Prop where
  | absent : Caught re m e none e.toValue
  | answered {k : Value} {m' : Machine} :
      call re 1 1 (m.asking k e.toValue) = .done () m' → Caught re m e (some k) m'.frame.peek
  | failed {k : Value} {e' : Error} {m' : Machine} :
      call re 1 1 (m.asking k e.toValue) = .raised e' m' →
      Caught re m e (some k) Error.handlerFailed.toValue

variable {honest : Prop} {t : ThreadId} {n h : Nat} {c : Counts} {o : Origin} {m₀ m m' : Machine}
  {re : Reentry} {handler : Option Value} {e : Error}

theorem Frame.setTop_of_top {f : Frame} (h : f.top = 0) : f.setTop 0 = f := by
  rw [setTop, h]
  cases f
  cases h
  rfl

theorem Frame.Alike.kept {aliased : Nat → Prop} {f g : Frame} (hfg : f.Alike g) :
    f.Kept aliased g := by
  refine ⟨hfg.1, fun s hs _ => ?_⟩
  have hv := congrArg (·[s]?) hfg.2
  have ht : g.top = f.top := (congrArg Frame.top hfg.1 : g.control.top = f.control.top)
  simp only [Frame.getElem?_values, ht, if_pos hs] at hv
  exact Option.some.inj hv

theorem Frame.values_empty {f : Frame} (h : f.top = 0) : f.values = [] :=
  List.eq_nil_of_length_eq_zero (f.length_values.trans h)

theorem Landed.kept {yielding : Prop} {f : Frame}
    (hm : Landed honest t (n + 1) c m₀ yielding m) (hf : (m₀.threadAt t).frames[n]? = some f) :
    f.Kept (m₀.Aliased t n) (m.frameAt t) := by
  obtain ⟨g, hg, hk⟩ := hm.intact.frames n (Nat.lt_succ_self n) f hf
  rw [getElem?_top hm.size] at hg
  exact Option.some.inj hg ▸ hk

theorem Landed.aloft {f : Frame} (hm : Landed honest t (n + 1) c m₀ False m) (hn : 0 < n)
    (hf : (m₀.threadAt t).frames[n]? = some f) : Aloft honest t n c f.origin m₀ t false m := by
  have hs := hm.size
  refine ⟨⟨hm.intact.mono (Nat.le_succ n), ?_, hn, fun i hi g hg => ?_, hm.parked, hm.status,
    fun hh => ?_⟩, hm.counts⟩
  · have hk := (hm.kept hf).1
    rw [getElem?_top hs, Option.map_some]
    exact congrArg some (congrArg Frame.origin hk : (m.frameAt t).control.origin = _)
  · rw [Array.getElem?_eq_none (by omega)] at hg
    cases hg
  · have hc := hm.calm hh
    exact ⟨hc.1, fun hy => absurd hy.1 (by decide), .inl (hc.3.resolve_right id)⟩

theorem Landed.restack {yielding : Prop} (hm : Landed honest t n c m₀ yielding m)
    (g : Frame → Frame) (hg : (m.frameAt t).Alike (g (m.frameAt t))) :
    Landed honest t n c m₀ yielding (m.modifyTop t g) := by
  have ht : (m.modifyTop t g).threadAt t = _ := m.threadAt_modify_there hm.there _
  have hs := hm.size
  have hn := hm.positive
  refine hm.ofFrames ht ((size_modifyFrames ..).trans hm.size) (Array.size_modify ..)
    (hm.intact.trans ⟨List.prefix_rfl, fun _ _ _ ha => ha, fun i hi f hf => ?_⟩)
  rw [ht, modifyFrames, Array.getElem?_modify]
  split
  · next he =>
    have ht := getElem?_top (show (m.threadAt t).frames.size = i + 1 by omega)
    rw [hf] at ht
    obtain rfl := Option.some.inj ht
    exact ⟨_, by rw [hf]; rfl, hg.kept⟩
  · exact ⟨f, hf, .refl⟩

theorem caughtValue_absent (re : Reentry) (e : Error) (m : Machine) :
    caughtValue re none e m = .done e.toValue m := rfl

section Handler

variable {k v : Value}

theorem runHandler_answered (h : call re 1 1 (m.asking k v) = .done () m') :
    runHandler re k v m = .done (some m'.frame.peek) (m'.modifyTop m'.running (·.drop 1)) := by
  change (attempt (call re 1 1) (m.asking k v)).andThen _ = _
  rw [run_attempt_done h]
  rfl

theorem runHandler_failed {e' : Error} (h : call re 1 1 (m.asking k v) = .raised e' m') :
    runHandler re k v m = .done none m' := by
  change (attempt (call re 1 1) (m.asking k v)).andThen _ = _
  rw [run_attempt_raised h]
  rfl

theorem runHandler_exhausted (h : call re 1 1 (m.asking k v) = .exhausted) :
    runHandler re k v m = .exhausted := by
  change (attempt (call re 1 1) (m.asking k v)).andThen _ = _
  rw [run_attempt_exhausted h]
  rfl

end Handler

theorem caughtValue_answered {k : Value} (h : call re 1 1 (m.asking k e.toValue) = .done () m') :
    caughtValue re (some k) e m = .done m'.frame.peek (m'.modifyTop m'.running (·.drop 1)) := by
  rw [caughtValue, run_bind, runHandler_answered h]
  rfl

theorem caughtValue_failed {k : Value} {e' : Error}
    (h : call re 1 1 (m.asking k e.toValue) = .raised e' m') :
    caughtValue re (some k) e m = .done Error.handlerFailed.toValue m' := by
  rw [caughtValue, run_bind, runHandler_failed h]
  rfl

theorem caughtValue_exhausted {k : Value}
    (h : call re 1 1 (m.asking k e.toValue) = .exhausted) :
    caughtValue re (some k) e m = .exhausted := by
  rw [caughtValue, run_bind, runHandler_exhausted h]
  rfl

theorem caught_of_done {v : Value} (h : caughtValue re handler e m = .done v m') :
    Caught re m e handler v := by
  cases handler with
  | none =>
    cases h
    exact .absent
  | some k =>
    cases hc : call re 1 1 (m.asking k e.toValue) with
    | done a m₁ =>
      rw [caughtValue_answered hc] at h
      cases h
      exact .answered hc
    | raised e' m₁ =>
      rw [caughtValue_failed hc] at h
      cases h
      exact .failed hc
    | exhausted =>
      rw [caughtValue_exhausted hc] at h
      cases h

theorem asks_of_exhausted (h : caughtValue re handler e m = .exhausted) :
    ∃ k, handler = some k ∧ call re 1 1 (m.asking k e.toValue) = .exhausted := by
  cases handler with
  | none => cases h
  | some k =>
    refine ⟨k, rfl, ?_⟩
    cases hc : call re 1 1 (m.asking k e.toValue) with
    | done a m₁ =>
      rw [caughtValue_answered hc] at h
      cases h
    | raised e' m₁ =>
      rw [caughtValue_failed hc] at h
      cases h
    | exhausted => rfl

theorem Frame.alike_popped (f : Frame) (vs : List Value) : f.Alike ((f.pushAll vs).drop vs.length) := by
  have ht : f.top + vs.length - vs.length = f.top := Nat.add_sub_cancel ..
  constructor
  · have hc : ((f.pushAll vs).drop vs.length).control =
        { f.control with top := f.top + vs.length - vs.length } := rfl
    rw [hc, ht]
    rfl
  · rw [Frame.values_drop, Frame.values_pushAll]
    change (f.values ++ vs).take (f.top + vs.length - vs.length) = _
    rw [ht, ← f.length_values]
    exact List.take_left

theorem frameAt_asking (h : 1 < (m.threadAt t).frames.size) (ht : m.running = t) (k v : Value) :
    (m.asking k v).frameAt t = ((m.frameAt t).push k).push v := by
  subst ht
  have he : m.asking k v = m.modifyTop m.running fun f => (f.push k).push v := modifyTop_modifyTop ..
  rw [he, frameAt_modifyTop_self h]

theorem Aloft.asking (hm : Aloft honest t n c o m₀ t false m) (k v : Value) :
    Aloft honest t n c o m₀ t false (m.asking k v) := by
  have hk : Aloft honest t n c o m₀ t false (m.modifyTop m.running (·.push k)) :=
    Condition.Steady.top _ _ hm
  exact Condition.Steady.top _ _ hk

theorem Landed.asking (hm : Landed honest t n c m₀ False m) (ht : m.running = t) (k v : Value) :
    Landed honest t n c (m.asking k v) False (m.asking k v) := by
  subst ht
  exact (hm.top _).top _

theorem landed_asking (hm : Landed honest t n c m False m) (ht : m.running = t) (k v : Value) :
    Landed honest t n c m False ((m.asking k v).taken 1) := by
  subst ht
  have hv (f : Frame) : f.Alike ((((f.push k).push v).drop 1).drop 1) := by
    constructor
    · rfl
    · rw [Frame.values_drop, Frame.values_drop, Frame.values_push, Frame.values_push]
      have hl := f.length_values
      change ((f.values ++ [k] ++ [v]).take (f.top + 1 + 1 - 1)).take (f.top + 1 + 1 - 1 - 1) = _
      rw [List.take_take, List.append_assoc, ← hl, Nat.min_eq_left (by omega)]
      exact List.take_left
  have hx := hm.restack (fun f => (((f.push k).push v).drop 1).drop 1) (hv _)
  have he : (m.asking k v).taken 1 = m.modifyTop m.running fun f =>
      (((f.push k).push v).drop 1).drop 1 := by
    unfold Machine.asking taken
    change (((m.modifyTop m.running _).modifyTop m.running _).modifyTop m.running _).modifyTop
      m.running _ = _
    rw [modifyTop_modifyTop, modifyTop_modifyTop, modifyTop_modifyTop]
    rfl
  rwa [he]

theorem Machine.nesting_modifyTop (m : Machine) (t t' : ThreadId) (g : Frame → Frame) :
    ((m.modifyTop t' g).threadAt t).nesting = (m.threadAt t).nesting := by
  rw [modifyTop, threadAt_modify]
  split <;> rfl

theorem Machine.nesting_asking (m : Machine) (k v : Value) :
    (m.asking k v).thread.nesting = m.thread.nesting :=
  ((m.modifyTop m.running (·.push k)).nesting_modifyTop m.running m.running (·.push v)).trans
    (m.nesting_modifyTop m.running m.running (·.push k))

/-- The stack is what it was before, unless the handler is refused for being nested too deep. -/
theorem caughtValue_landed (hre : re.Shelters honest t) (hm : Landed honest t n c m False m)
    (ht : m.running = t) (hl : handler = none ∨ m.thread.nesting < m.limits.nesting) {v : Value}
    (he : caughtValue re handler e m = .done v m') :
    m'.running = t ∧ Landed honest t n c m False m' := by
  cases handler with
  | none =>
    cases he
    exact ⟨ht, hm⟩
  | some k =>
    have hnest : (m.asking k e.toValue).thread.nesting < (m.asking k e.toValue).limits.nesting :=
      (nesting_asking m k e.toValue).symm ▸ hl.resolve_left nofun
    have hc := hostCalled_call hre 1 1 (hm.asking ht k e.toValue) ht hnest
    have ha := landed_asking hm ht k e.toValue
    cases hcall : call re 1 1 (m.asking k e.toValue) with
    | done a m₁ =>
      rw [caughtValue_answered hcall] at he
      cases he
      rw [hcall] at hc
      obtain ⟨hr₁, vs, ⟨m₂, rfl, hx⟩, -⟩ := hc
      change m₂.running = t at hr₁
      subst hr₁
      refine ⟨rfl, ?_⟩
      change Landed honest m₂.running n c m False ((m₂.modifyTop m₂.running _).modifyTop m₂.running _)
      rw [modifyTop_modifyTop]
      have hp := (m₂.frameAt m₂.running).alike_popped (adjust vs 1)
      rw [show (adjust vs 1).length = 1 from length_adjust vs 1] at hp
      exact (hx.trans ha.intact).restack _ hp
    | raised e' m₁ =>
      rw [caughtValue_failed hcall] at he
      cases he
      rw [hcall] at hc
      exact ⟨hc.1, hc.2.2.trans ha.intact⟩
    | exhausted =>
      rw [caughtValue_exhausted hcall] at he
      cases he

theorem caughtValue_limited (re : Reentry) (e : Error) {k : Value} (hm : Landed honest t n c m False m)
    (ht : m.running = t) (hl : m.limits.nesting ≤ m.thread.nesting) :
    ∃ m', caughtValue re (some k) e m = .done Error.handlerFailed.toValue m' ∧ m'.running = t ∧
      m'.threadAt t = (m.asking k e.toValue).threadAt t ∧
      Landed honest t n c (m.asking k e.toValue) False m' := by
  have hl' : (m.asking k e.toValue).limits.nesting ≤ (m.asking k e.toValue).thread.nesting :=
    (nesting_asking m k e.toValue).symm ▸ hl
  obtain ⟨m', hc, hr, hth, hx⟩ :=
    call_limited re 1 1 (hm.asking ht k e.toValue) ht hl'
  exact ⟨m', caughtValue_failed hc, hr, hth, hx⟩

theorem caughtValue_size (hre : re.Shelters honest t) (hm : Landed honest t n c m False m)
    (ht : m.running = t) {v : Value} (he : caughtValue re handler e m = .done v m') :
    (m'.threadAt t).frames.size = n := by
  by_cases hl : handler = none ∨ m.thread.nesting < m.limits.nesting
  · exact (caughtValue_landed hre hm ht hl he).2.size
  · obtain ⟨hs, hn⟩ := not_or.mp hl
    obtain ⟨k, rfl⟩ := Option.ne_none_iff_exists'.mp hs
    obtain ⟨m₁, he₁, -, -, hx⟩ := caughtValue_limited re e hm ht (Nat.not_lt.mp hn)
    rw [he] at he₁
    cases he₁
    exact hx.size

end LuaMachine
