import LuaMachine.Proofs.Unwinding.Boundary

namespace LuaMachine

open Machine Exec Relation

theorem Frame.Kept.alike {aliased : Nat → Prop} {f g : Frame} (h : f.Kept aliased g)
    (ha : ∀ s, ¬aliased s) : f.Alike g := by
  refine ⟨h.1, List.ext_getElem? fun i => ?_⟩
  rw [Frame.getElem?_values, Frame.getElem?_values, h.top_eq]
  split
  · next hi => rw [h.2 i hi (ha i)]
  · rfl

namespace Machine

variable {m m₁ m₂ : Machine} {t : ThreadId} {i s nargs slot : Nat} {f : Frame}

theorem not_aliased (hc : m.Captures) (hb : m.BytecodeCaptures)
    (hf : (m.threadAt t).frames[i]? = some f) (hn : ¬m.RunsBytecode f) : ¬m.Aliased t i s := by
  rintro ⟨u, hu⟩
  have hr : m.Registered u ⟨t, i, s⟩ := (hc.opened u _).mpr hu
  rw [Registered, Thread.capturedAt, hf] at hr
  exact hn (hb t i f hf (List.ne_nil_of_mem hr))

/-- A function and `nargs` arguments are on top of the stack of the host or of a native function, in
a thread that runs and is not suspended. -/
structure Prepared (m : Machine) (nargs : Nat) : Prop where
  there : m.running.index < m.threads.size
  parked : m.thread.parked = false
  status : m.thread.status ≠ .yield
  positive : 0 < m.frameCount
  native : ¬m.RunsBytecode m.frame
  operands : nargs + 1 ≤ m.frame.top
  captures : m.Captures
  lexical : m.BytecodeCaptures

/-- The thread is back in its frame, with values in the place of a function and its arguments. -/
structure Replaces (m : Machine) (nargs : Nat) (vs : List Value) (m' : Machine) : Prop where
  running : m'.running = m.running
  frameCount : m'.frameCount = m.frameCount
  counts : m'.thread.counts = m.thread.counts
  below : Intact m.running (m.frameCount - 1) m m'
  control : m'.frame.control = { m.frame.control with top := m'.frame.top }
  values : m'.frame.values = m.frame.values.take (m.frame.top - (nargs + 1)) ++ vs

end Machine

structure Back (honest : Prop) (m : Machine) (slot : Nat) (m' : Machine) : Prop where
  running : m'.running = m.running
  landed : Landed honest m.running m.frameCount m.thread.counts m' False m'
  below : Intact m.running (m.frameCount - 1) m m'
  aliases : ∀ s, ¬m'.Aliased m.running (m.frameCount - 1) s
  control : m'.frame.control = { m.frame.control with top := m'.frame.top }
  top : slot ≤ m'.frame.top
  values : m'.frame.values.take slot = m.frame.values.take slot

namespace Back

variable {honest : Prop} {m m₁ m₂ : Machine} {slot nargs : Nat} {vs : List Value}

theorem frameCount (hb : Back honest m slot m₁) : m₁.frameCount = m.frameCount :=
  hb.landed.frameCount hb.running

theorem frame_modifyTop (hb : Back honest m slot m₁) (g : Frame → Frame) :
    (m₁.modifyTop m.running g).frameAt m.running = g (m₁.frameAt m.running) :=
  frameAt_modifyTop_there hb.landed.there (by rw [hb.landed.size]; exact hb.landed.positive) g

theorem landing (hb : Back honest m slot m₁)
    (hx : Landed honest m.running m.frameCount m.thread.counts m₁ False m₂)
    (hr : m₂.running = m.running) :
    Back honest m slot m₂ ∧ m₁.frame.Alike m₂.frame := by
  have hn := hb.landed.positive
  obtain ⟨k, hk⟩ : ∃ k, m.frameCount = k + 1 := ⟨m.frameCount - 1, by omega⟩
  have hf : (m₁.threadAt m.running).frames[k]? = some m₁.frame := by
    rw [getElem?_top (hb.landed.size.trans hk), Machine.frame, hb.running]
  have ha : m₁.frame.Alike m₂.frame := by
    have hkept := (hk ▸ hx : Landed honest m.running (k + 1) m.thread.counts m₁ False m₂).kept hf
    rw [← hr] at hkept
    exact hkept.alike fun s => by
      have := hb.aliases s
      rwa [hk, Nat.add_sub_cancel, ← hr] at this
  refine ⟨⟨hr, hx.refl, hb.below.trans (hx.intact.mono (Nat.sub_le ..)), fun s hs => ?_, ?_, ?_, ?_⟩, ha⟩
  · exact hb.aliases s (hx.intact.aliases _ (by omega) s hs)
  · have ht : m₂.frame.top = m₁.frame.top :=
      (congrArg Frame.top ha.1 : m₂.frame.control.top = m₁.frame.control.top)
    rw [ha.1, hb.control, ht]
  · have ht : m₂.frame.top = m₁.frame.top :=
      (congrArg Frame.top ha.1 : m₂.frame.control.top = m₁.frame.control.top)
    exact ht ▸ hb.top
  · rw [ha.2, hb.values]

theorem restack (hb : Back honest m slot m₁) (g : Frame → Frame) [hg : Frame.Restacks g]
    (ht : slot ≤ (g m₁.frame).top)
    (hv : (g m₁.frame).values.take slot = m₁.frame.values.take slot) :
    Back honest m slot (m₁.modifyTop m₁.running g) := by
  have hf : (m₁.modifyTop m₁.running g).frame = g m₁.frame := by
    have hf := hb.frame_modifyTop g
    rw [← hb.running] at hf
    exact hf
  have hx := hb.landed.top g
  rw [← hb.running] at hx
  refine ⟨hb.running, hb.running ▸ hx, hb.below.trans ?_, hb.aliases, ?_, by rw [hf]; exact ht, ?_⟩
  · rw [hb.running]
    refine intact_modifyTop ?_ g
    rw [hb.landed.size]
    exact Nat.sub_lt hb.landed.positive Nat.one_pos
  · rw [hf, hg.control, hb.control]
  · rw [hf, hv, hb.values]

theorem held (hb : Back honest m slot m₁) (vs : List Value) :
    Back honest m slot { m₁ with held := vs } :=
  have hx : Landed honest m.running m.frameCount m.thread.counts m₁ False { m₁ with held := vs } :=
    { hb.landed with intact := intact_of_frames rfl rfl rfl }
  (hb.landing hx hb.running).1

theorem truncate (hb : Back honest m slot m₁) : ∃ m₂,
    truncateFrames (max m.frameCount 1) m₁ = .done () m₂ ∧ Back honest m slot m₂ := by
  obtain ⟨us, hu, he⟩ := run_truncateFrames (max m.frameCount 1) m₁
  rw [hb.running] at he
  exact ⟨_, he, (hb.landing (hb.landed.cut (Nat.le_max_left ..) hu) hb.running).1⟩

theorem counted (hb : Back honest m slot m₁) : Back honest m slot { m₁ with
    threads := m₁.threads.modify m₁.running.index fun th =>
      { th with hostCalls := m.thread.hostCalls, nesting := m.thread.nesting } } := by
  rw [show m₁.running.index = m.running.index from congrArg _ hb.running]
  exact (hb.landing (hb.landed.counted m.thread.counts fun _ => False.elim) hb.running).1

theorem setTop (hb : Back honest m slot m₁) :
    Back honest m slot (m₁.modifyTop m₁.running (·.setTop slot)) ∧
      (m₁.modifyTop m₁.running (·.setTop slot)).frame.values = m.frame.values.take slot := by
  have hv := m₁.frame.values_setTop slot hb.top
  refine ⟨hb.restack (·.setTop slot) (Nat.le_refl slot) (by rw [hv, List.take_take, Nat.min_self]), ?_⟩
  have hf := hb.frame_modifyTop (·.setTop slot)
  rw [← hb.running] at hf
  exact (congrArg Frame.values hf).trans (hv.trans hb.values)

theorem pushed (hb : Back honest m slot m₁) (v : Value) :
    Back honest m slot (m₁.modifyTop m₁.running (·.push v)) ∧
      (m₁.modifyTop m₁.running (·.push v)).frame.values = m₁.frame.values ++ [v] := by
  have hv := m₁.frame.values_push v
  have hl := m₁.frame.length_values
  refine ⟨hb.restack (·.push v) (Nat.le_succ_of_le hb.top) ?_, ?_⟩
  · rw [hv, List.take_append_of_le_length (hl ▸ hb.top)]
  · have hf := hb.frame_modifyTop (·.push v)
    rw [← hb.running] at hf
    exact (congrArg Frame.values hf).trans hv

theorem filled (hb : Back honest m slot m₁) (vs : List Value) :
    Back honest m slot (m₁.modifyTop m.running (·.pushAll vs)) ∧
      (m₁.modifyTop m.running (·.pushAll vs)).frame.values = m₁.frame.values ++ vs := by
  have hv := m₁.frame.values_pushAll vs
  have hl := m₁.frame.length_values
  have hr := hb.restack (·.pushAll vs) (Nat.le_add_right_of_le hb.top)
    (by rw [hv, List.take_append_of_le_length (hl ▸ hb.top)])
  have hf := hb.frame_modifyTop (·.pushAll vs)
  rw [← hb.running] at hf ⊢
  exact ⟨hr, (congrArg Frame.values hf).trans hv⟩

theorem dropped (hb : Back honest m slot m₁) {n : Nat} (h : slot + n ≤ m₁.frame.top) :
    Back honest m slot (m₁.modifyTop m₁.running (·.drop n)) ∧
      (m₁.modifyTop m₁.running (·.drop n)).frame = m₁.frame.drop n := by
  have hv := m₁.frame.values_drop n
  refine ⟨hb.restack (·.drop n) (show slot ≤ m₁.frame.top - n by omega) ?_, ?_⟩
  · rw [hv, List.take_take, Nat.min_eq_left (by omega)]
  · have hf := hb.frame_modifyTop (·.drop n)
    rw [← hb.running] at hf
    exact hf

theorem taken (hb : Back honest m slot m₁) (h : slot + (nargs + 1) = m₁.frame.top) :
    Back honest m slot (m₁.taken nargs) ∧ (m₁.taken nargs).frame.values = m.frame.values.take slot := by
  obtain ⟨hb₁, hf₁⟩ := hb.dropped (n := nargs) (by omega)
  have ht₁ : (m₁.modifyTop m₁.running (·.drop nargs)).frame.top = m₁.frame.top - nargs :=
    congrArg Frame.top hf₁
  obtain ⟨hb₂, hf₂⟩ := hb₁.dropped (n := 1) (by omega)
  refine ⟨hb₂, ?_⟩
  have ht₂ : (m₁.taken nargs).frame.top = slot := by
    have ht₂ : (m₁.taken nargs).frame.top = _ - 1 := congrArg Frame.top hf₂
    omega
  have hl := (m₁.taken nargs).frame.length_values
  rw [← hb₂.values]
  exact (List.take_of_length_le (by omega)).symm

section Call

variable {re : Reentry} (hre : re.Shelters honest m.running)
include hre

theorem ends_call (hb : Back honest m slot m₁) (wanted : Int)
    (h : slot + (nargs + 1) = m₁.frame.top) {m₂ : Machine} (he : call re nargs wanted m₁ = .done () m₂) :
    ∃ vs m₃, m₂ = m₃.modifyTop m.running (·.pushAll (adjust vs wanted)) ∧ Back honest m slot m₃ ∧
      m₃.frame.values = m.frame.values.take slot ∧ m₂.Answered m.running m.frameCount vs := by
  have hl : m₁.thread.nesting < m₁.limits.nesting := Nat.not_le.mp fun hl => by
    obtain ⟨m', hc, -⟩ := call_limited re nargs wanted hb.landed hb.running hl
    cases he.symm.trans hc
  obtain ⟨hb', hv⟩ := hb.taken h
  have hc := hostCalled_call hre nargs wanted hb.landed hb.running hl
  rw [he] at hc
  obtain ⟨hr, vs, ⟨m₃, rfl, hx⟩, ha⟩ := hc
  obtain ⟨hb₃, hlike⟩ := hb'.landing hx hr
  exact ⟨vs, m₃, rfl, hb₃, hlike.2.trans hv, ha⟩

theorem fails_call (hb : Back honest m slot m₁) (wanted : Int)
    (h : slot + (nargs + 1) = m₁.frame.top) {e : Error} {m₂ : Machine}
    (he : call re nargs wanted m₁ = .raised e m₂) :
    (honest → e ≠ .yield) ∧ Back honest m slot m₂ := by
  by_cases hl : m₁.thread.nesting < m₁.limits.nesting
  · have hc := hostCalled_call hre nargs wanted hb.landed hb.running hl
    rw [he] at hc
    refine ⟨fun hh hy => ?_, ((hb.taken h).1.landing hc.2.2 hc.1).1⟩
    subst hy
    cases hc.2.1 hh
  · obtain ⟨m', hc, hr, -, hx⟩ :=
      call_limited re nargs wanted hb.landed hb.running (Nat.not_lt.mp hl)
    rw [he] at hc
    cases hc
    exact ⟨fun _ => nofun, (hb.landing hx hr).1⟩

end Call

end Back

namespace Exec

variable (re : Reentry)

def report (slot : Nat) (handler : Option Value) (e : Error) : Exec Status := do
  match handler with
  | none =>
    push e.toValue
    return e.status
  | some h =>
    let v ← runHandler re h e.toValue
    modifyFrame (·.setTop slot)
    push (v.getD Error.handlerFailed.toValue)
    return if v.isSome then e.status else .handlerError

/-- Goes on after a failure where the protected call has begun. -/
def contain (depth slot : Nat) (c : Counts) (handler : Option Value) (e : Error) : Exec Status := do
  unwindTo depth
  modifyThread fun t => { t with hostCalls := c.hostCalls, nesting := c.nesting }
  modifyFrame (·.setTop slot)
  report re slot handler e

theorem holding_eq {α : Type} (vs : List Value) (x : Exec α) (m : Machine) :
    holding vs x m = (x { m with held := vs ++ m.held }).change fun m' => { m' with held := m.held } := by
  rw [holding, run_bind, run_read, Outcome.andThen_done, run_bind, run_modify, Outcome.andThen_done,
    run_bind]
  cases he : x { m with held := vs ++ m.held } with
  | done a m' =>
    rw [run_attempt_done he]
    rfl
  | raised e m' =>
    rw [run_attempt_raised he]
    rfl
  | exhausted =>
    rw [run_attempt_exhausted he]
    rfl

end Exec

def Machine.Handles (m : Machine) (index : Int) (handler : Option Value) : Prop :=
  if index = 0 then handler = none else ∃ v, handler = some v ∧ valueAt index m = .done v m

theorem Machine.exists_handles (m : Machine) (index : Int) : ∃ handler, m.Handles index handler := by
  by_cases h : index = 0
  · exact ⟨none, by rw [Handles, if_pos h]⟩
  · obtain ⟨v, hv⟩ := run_valueAt index m
    exact ⟨some v, by rw [Handles, if_neg h]; exact ⟨v, rfl, hv⟩⟩

theorem pcall_eq (re : Reentry) (nargs : Nat) (wanted index : Int) {m : Machine}
    {handler : Option Value} (hh : m.Handles index handler) :
    Exec.pcall re nargs wanted index m =
      match holding handler.toList (call re nargs wanted) m with
      | .done _ m' => .done .ok m'
      | .raised e m' =>
        contain re m.frameCount (m.frame.top - (nargs + 1)) m.thread.counts handler e m'
      | .exhausted => .exhausted := by
  have hstart : ∀ rest : Option Value → Exec Status,
      (if index = 0 then pure none >>= rest else (some <$> valueAt index) >>= rest) m =
        rest handler m := fun rest => by
    rw [Machine.Handles] at hh
    split at hh
    · next hi => rw [if_pos hi, hh, pure_bind]
    · next hi =>
      obtain ⟨v, rfl, hv⟩ := hh
      rw [if_neg hi, ← bind_pure_comp, run_bind, run_bind, hv]
      rfl
  refine (hstart _).trans ?_
  dsimp only
  rw [run_bind, run_frameCount, Outcome.andThen_done, run_bind, run_top, Outcome.andThen_done,
    run_bind, run_readThread, Outcome.andThen_done, run_bind]
  cases he : holding handler.toList (call re nargs wanted) m with
  | done a m' =>
    rw [run_attempt_done he]
    rfl
  | raised e m' =>
    rw [run_attempt_raised he]
    cases handler <;> rfl
  | exhausted =>
    rw [run_attempt_exhausted he]
    rfl

inductive Reports (re : Reentry) (m : Machine) (e : Error) : Option Value → Status → Value → Prop
  | absent : Reports re m e none e.status e.toValue
  | answered {k : Value} {m' : Machine} : call re 1 1 (m.asking k e.toValue) = .done () m' →
      Reports re m e (some k) e.status m'.frame.peek
  | failed {k : Value} {e' : Error} {m' : Machine} :
      call re 1 1 (m.asking k e.toValue) = .raised e' m' →
      Reports re m e (some k) .handlerError Error.handlerFailed.toValue

theorem Error.status_ne_ok (e : Error) : e.status ≠ .ok := by
  cases e <;> nofun

theorem Error.status_eq_yield {e : Error} (h : e.status = .yield) : e = .yield := by
  cases e with
  | yield => rfl
  | _ => cases h

theorem Reports.status_ne_ok {re : Reentry} {m : Machine} {e : Error} {handler : Option Value}
    {status : Status} {v : Value} (h : Reports re m e handler status v) : status ≠ .ok := by
  cases h with
  | absent | answered => exact e.status_ne_ok
  | failed => nofun

theorem Reports.status_ne_yield {re : Reentry} {m : Machine} {e : Error} {handler : Option Value}
    {status : Status} {v : Value} (h : Reports re m e handler status v) (he : e ≠ .yield) :
    status ≠ .yield := by
  cases h with
  | absent | answered => exact fun hc => he (Error.status_eq_yield hc)
  | failed => nofun

namespace Back

variable {honest : Prop} {m m₁ m₂ : Machine} {slot nargs : Nat} {re : Reentry} {e : Error}
  {handler : Option Value}

theorem replaces {vs : List Value} (hb : Back honest m (m.frame.top - (nargs + 1)) m₁)
    (hv : m₁.frame.values = m.frame.values.take (m.frame.top - (nargs + 1)) ++ vs) :
    m.Replaces nargs vs m₁ :=
  ⟨hb.running, hb.frameCount, by rw [Machine.thread, hb.running, hb.landed.counts], hb.below,
    hb.control, hv⟩

theorem asking (hb : Back honest m slot m₁) (hv : m₁.frame.top = slot) (k v : Value) :
    Back honest m slot (m₁.asking k v) ∧ (m₁.asking k v).frame.top = slot + 2 := by
  obtain ⟨hb₁, hv₁⟩ := hb.pushed k
  obtain ⟨hb₂, hv₂⟩ := hb₁.pushed v
  refine ⟨hb₂, ?_⟩
  have hl := congrArg List.length (hv₂.trans (congrArg (· ++ [v]) hv₁))
  rw [List.length_append, List.length_append, Frame.length_values, Frame.length_values, hv] at hl
  exact hl

theorem handled (hre : re.Shelters honest m.running) (hb : Back honest m slot m₁)
    (ht : m₁.frame.top = slot) (k v : Value) : match call re 1 1 (m₁.asking k v) with
      | .done _ m₂ => Back honest m slot (m₂.modifyTop m₂.running (·.drop 1))
      | .raised _ m₂ => Back honest m slot m₂
      | .exhausted => True := by
  obtain ⟨hb', ht'⟩ := hb.asking ht k v
  cases he : call re 1 1 (m₁.asking k v) with
  | done a m₂ =>
    obtain ⟨vs, m₃, rfl, hb₃, hv₃, -⟩ := hb'.ends_call hre 1 ht'.symm he
    obtain ⟨hb₄, hv₄⟩ := hb₃.filled (adjust vs 1)
    refine (hb₄.dropped ?_).1
    have hl := congrArg List.length hv₄
    have h₁ : (adjust vs 1).length = 1 := length_adjust vs 1
    rw [List.length_append, Frame.length_values, Frame.length_values, h₁] at hl
    have := hb₃.top
    omega
  | raised e' m₂ => exact (hb'.fails_call hre 1 ht'.symm he).2
  | exhausted => trivial

theorem reports (hre : re.Shelters honest m.running) (hb : Back honest m slot m₁)
    (hv : m₁.frame.values = m.frame.values.take slot) (ht : m₁.frame.top = slot) :
    (report re slot handler e m₁ = .exhausted ∧
      ∃ k, handler = some k ∧ call re 1 1 (m₁.asking k e.toValue) = .exhausted) ∨
    ∃ status v m₂, report re slot handler e m₁ = .done status m₂ ∧
      Reports re m₁ e handler status v ∧ Back honest m slot m₂ ∧
      m₂.frame.values = m.frame.values.take slot ++ [v] := by
  cases handler with
  | none =>
    obtain ⟨hb', hv'⟩ := hb.pushed e.toValue
    exact .inr ⟨_, _, _, rfl, .absent, hb', hv'.trans (by rw [hv])⟩
  | some k =>
    have hh := hb.handled hre ht k e.toValue
    have ends : ∀ {m₂ : Machine} (v : Value), Back honest m slot m₂ →
        Back honest m slot (((m₂.modifyTop m₂.running (·.setTop slot))).modifyTop m₂.running
          (·.push v)) ∧ (((m₂.modifyTop m₂.running (·.setTop slot))).modifyTop m₂.running
            (·.push v)).frame.values = m.frame.values.take slot ++ [v] := fun v hb₂ => by
      obtain ⟨hb₃, hv₃⟩ := hb₂.setTop
      obtain ⟨hb₄, hv₄⟩ := hb₃.pushed v
      exact ⟨hb₄, hv₄.trans (by rw [hv₃])⟩
    rw [report, run_bind]
    cases he : call re 1 1 (m₁.asking k e.toValue) with
    | done a m₂ =>
      rw [he] at hh
      rw [runHandler_answered he]
      exact .inr ⟨_, _, _, rfl, .answered he, ends _ hh⟩
    | raised e' m₂ =>
      rw [he] at hh
      rw [runHandler_failed he]
      exact .inr ⟨_, _, _, rfl, .failed he, ends _ hh⟩
    | exhausted =>
      rw [runHandler_exhausted he]
      exact .inl ⟨rfl, k, rfl, he⟩

end Back

namespace Machine.Prepared

variable {m : Machine} {nargs : Nat} {honest : Prop}

theorem back (hm : m.Prepared nargs) (hp : honest → m.thread.pending = none) :
    Back honest m (m.frame.top - (nargs + 1)) m := by
  refine ⟨rfl, ⟨.refl .., hm.there, hm.positive, rfl, hm.parked, hm.status, rfl, fun hh =>
    ⟨rfl, False.elim, .inl (hp hh)⟩⟩, .refl .., fun s => ?_, rfl, Nat.sub_le .., rfl⟩
  refine not_aliased hm.captures hm.lexical (f := m.frame) ?_ hm.native
  exact getElem?_top (Nat.sub_add_cancel hm.positive).symm

variable {re : Reentry} {wanted : Int} {kept : List Value} {m₁ : Machine}
  (hre : re.Shelters honest m.running) (hm : m.Prepared nargs)
  (hp : honest → m.thread.pending = none)
include hre hm hp

theorem returned (he : holding kept (call re nargs wanted) m = .done () m₁) :
    ∃ vs, m₁.Answered m.running m.frameCount vs ∧ m.Replaces nargs (adjust vs wanted) m₁ := by
  have hn := hm.operands
  have hb := (hm.back hp).held (kept ++ m.held)
  rw [holding_eq] at he
  cases hc : call re nargs wanted { m with held := kept ++ m.held } with
  | done a m₂ =>
    rw [hc] at he
    cases he
    obtain ⟨vs, m₃, rfl, hb₃, hv, first, m₄, m₅, site, hr, hs, hres, hl, hf⟩ :=
      hb.ends_call hre wanted (Nat.sub_add_cancel hn) hc
    obtain ⟨hb₄, hv₄⟩ := hb₃.filled (adjust vs wanted)
    exact ⟨vs, ⟨first, m₄, m₅, site, hr, hs, hres, hl, hf⟩,
      (hb₄.held m.held).replaces (hv₄.trans (by rw [hv]))⟩
  | raised e m₂ | exhausted =>
    rw [hc] at he
    cases he

theorem failed {e : Error} (he : holding kept (call re nargs wanted) m = .raised e m₁) :
    (honest → e ≠ .yield) ∧ Back honest m (m.frame.top - (nargs + 1)) m₁ := by
  have hn := hm.operands
  have hb := (hm.back hp).held (kept ++ m.held)
  rw [holding_eq] at he
  cases hc : call re nargs wanted { m with held := kept ++ m.held } with
  | raised e' m₂ =>
    rw [hc] at he
    cases he
    obtain ⟨hy, hb₂⟩ := hb.fails_call hre wanted (Nat.sub_add_cancel hn) hc
    exact ⟨hy, hb₂.held m.held⟩
  | done a m₂ | exhausted =>
    rw [hc] at he
    cases he

theorem contained {handler : Option Value} {e : Error}
    (he : holding kept (call re nargs wanted) m = .raised e m₁) :
    ∃ m₂, m.Replaces nargs [] m₂ ∧
      ((contain re m.frameCount (m.frame.top - (nargs + 1)) m.thread.counts handler e m₁ = .exhausted ∧
        ∃ k, handler = some k ∧ call re 1 1 (m₂.asking k e.toValue) = .exhausted) ∨
      ∃ status v m₃, contain re m.frameCount (m.frame.top - (nargs + 1)) m.thread.counts handler e m₁ =
          .done status m₃ ∧ Reports re m₂ e handler status v ∧ m.Replaces nargs [v] m₃) := by
  have hb := (failed hre hm hp he).2
  obtain ⟨m₂, htr, hb₂⟩ := hb.truncate
  obtain ⟨hb₃, hv₃⟩ := hb₂.counted.setTop
  refine ⟨_, hb₃.replaces (hv₃.trans (List.append_nil _).symm), ?_⟩
  have htop := congrArg List.length hv₃
  rw [Frame.length_values, List.length_take, Frame.length_values, Nat.min_eq_left (Nat.sub_le ..)] at htop
  rw [contain, unwindTo, run_bind, htr, Outcome.andThen_done, run_bind, run_modifyThread,
    Outcome.andThen_done, run_bind, run_modifyFrame, Outcome.andThen_done]
  rcases hb₃.reports hre hv₃ htop with hx | ⟨status, v, m₃, hd, hr, hb₄, hv₄⟩
  · exact .inl hx
  · exact .inr ⟨status, v, m₃, hd, hr, hb₄.replaces hv₄⟩

end Machine.Prepared

structure Host.ContainsFailures (host : Host) : Prop where
  handler : ∀ (m : Machine) (index : Int), ∃ handler, m.Handles index handler
  answers : ∀ {fuel nargs : Nat} {wanted index : Int} {m : Machine}, m.Prepared nargs →
    Exec.pcall (host.reentry fuel) nargs wanted index m ≠ .exhausted →
    ∃ status vs m', Exec.pcall (host.reentry fuel) nargs wanted index m = .done status m' ∧
      m.Replaces nargs vs m' ∧ (status = .ok ∨ ∃ v, vs = [v])
  returned : ∀ {fuel nargs : Nat} {wanted index : Int} {m m' : Machine} {handler : Option Value},
    m.Prepared nargs → m.Handles index handler →
    holding handler.toList (call (host.reentry fuel) nargs wanted) m = .done () m' →
    Exec.pcall (host.reentry fuel) nargs wanted index m = .done .ok m' ∧
      ∃ vs, m'.Answered m.running m.frameCount vs ∧ m.Replaces nargs (adjust vs wanted) m'
  /-- An error object takes the place of the function and its arguments, which a message handler finds
  gone already. -/
  failed : ∀ {fuel nargs : Nat} {wanted index : Int} {m m₁ : Machine} {handler : Option Value}
      {e : Error}, m.Prepared nargs → m.Handles index handler →
    holding handler.toList (call (host.reentry fuel) nargs wanted) m = .raised e m₁ →
    ∃ m₂, m.Replaces nargs [] m₂ ∧
      ((Exec.pcall (host.reentry fuel) nargs wanted index m = .exhausted ∧
        ∃ k, handler = some k ∧
          call (host.reentry fuel) 1 1 (m₂.asking k e.toValue) = .exhausted) ∨
      ∃ status v m', Exec.pcall (host.reentry fuel) nargs wanted index m = .done status m' ∧
        Reports (host.reentry fuel) m₂ e handler status v ∧ status ≠ .ok ∧ m.Replaces nargs [v] m')
  unyielding : ∀ {fuel nargs : Nat} {wanted index : Int} {m m' : Machine} {status : Status},
    host.Honest → m.Prepared nargs → m.thread.pending = none →
    Exec.pcall (host.reentry fuel) nargs wanted index m = .done status m' → status ≠ .yield
  /-- While the host waits for a call, who wants to yield is given an error instead. -/
  refused : ∀ {m : Machine} (k : Nat), 0 < m.thread.hostCalls →
    ∃ v, yieldError k m = .done (.thrown v) m ∧ (Error.thrown v).status = .runtimeError
  entered : ∀ {nargs : Nat} {m : Machine} (f : Frame), m.Prepared nargs →
    (((m.deeper true).taken nargs).enterFrame m.running f).thread.counts =
      m.thread.counts.deeper true
  within : ∀ {fuel nargs : Nat} {wanted : Int} {m m₁ : Machine} {p : Point}, m.Prepared nargs →
    enter (host.reentry fuel) nargs wanted .host (m.deeper true) = .done true m₁ →
    ReflTransGen (Point.Moves (host.reentry fuel) m.frameCount) (.running m₁) p →
    p.machine.running = m.running ∧ p.machine.thread.counts = m.thread.counts.deeper true

/-- Protected calls of the host contain every failure. -/
theorem Host.containsFailures (host : Host) : host.ContainsFailures := by
  have shelters (fuel : Nat) (t : ThreadId) : (host.reentry fuel).Shelters False t :=
    host.shelters False.elim t fuel
  constructor
  case handler => exact Machine.exists_handles
  case returned =>
    intro fuel nargs wanted index m m' handler hm hh he
    rw [pcall_eq _ _ _ _ hh, he]
    exact ⟨rfl, hm.returned (shelters fuel _) False.elim he⟩
  case failed =>
    intro fuel nargs wanted index m m₁ handler e hm hh he
    rw [pcall_eq _ _ _ _ hh, he]
    obtain ⟨m₂, hr, hx⟩ := hm.contained (shelters fuel _) False.elim he
    refine ⟨m₂, hr, hx.imp id ?_⟩
    rintro ⟨status, v, m₃, hd, hs, hr₃⟩
    exact ⟨status, v, m₃, hd, hs, hs.status_ne_ok, hr₃⟩
  case answers =>
    intro fuel nargs wanted index m hm hx
    obtain ⟨handler, hh⟩ := m.exists_handles index
    rw [pcall_eq _ _ _ _ hh] at hx ⊢
    cases he : holding handler.toList (call (host.reentry fuel) nargs wanted) m with
    | done a m' =>
      obtain ⟨vs, -, hr⟩ := hm.returned (shelters fuel _) False.elim he
      exact ⟨_, _, m', rfl, hr, .inl rfl⟩
    | raised e m₁ =>
      rw [he] at hx
      obtain ⟨m₂, -, ⟨hd, -⟩ | ⟨status, v, m', hd, -, hr⟩⟩ :=
        hm.contained (shelters fuel _) False.elim he
      · exact absurd hd hx
      · exact ⟨status, _, m', hd, hr, .inr ⟨v, rfl⟩⟩
    | exhausted =>
      rw [he] at hx
      exact absurd rfl hx
  case unyielding =>
    intro fuel nargs wanted index m m' status hhon hm hp hd
    obtain ⟨handler, hh⟩ := m.exists_handles index
    rw [pcall_eq _ _ _ _ hh] at hd
    cases he : holding handler.toList (call (host.reentry fuel) nargs wanted) m with
    | done a m₁ =>
      rw [he] at hd
      cases hd
      nofun
    | raised e m₁ =>
      rw [he] at hd
      have hy := (hm.failed (host.shelters id m.running fuel) (fun _ => hp) he).1 hhon
      obtain ⟨m₂, -, ⟨hx, -⟩ | ⟨status, v, m', hd', hs, -⟩⟩ :=
        hm.contained (shelters fuel _) False.elim he
      · cases hx.symm.trans hd
      · cases hd'.symm.trans hd
        exact hs.status_ne_yield hy
    | exhausted =>
      rw [he] at hd
      cases hd
  case refused =>
    intro m k hc
    rw [yieldError_eq]
    split <;> exact ⟨_, rfl, rfl⟩
  case entered =>
    intro nargs m f hm
    exact (((hm.back False.elim).landed.deeper rfl true).taken rfl nargs).counts_enterFrame f
  case within =>
    intro fuel nargs wanted m m₁ p hm he hw
    have hl := (hm.back False.elim).landed.deeper rfl true
    have hn : (m.deeper true).frameCount = m.frameCount := hl.size
    obtain ⟨hE, hr, hc, -⟩ := enter_enters (shelters fuel _) (hn ▸ hm.positive) hl.there hl.parked
      hl.status False.elim he
    have hs := (hE.stays False.elim).walk (shelters fuel _) hE.positive (hn.symm ▸ hw)
    obtain ⟨y, hx⟩ := hs.standing
    refine ⟨hs.running.trans hr, ?_⟩
    rw [Machine.thread, hs.running, hx.counts, hc]
    exact hl.counts

def Machine.eager : Machine :=
  { Machine.new {} with
    functions := #[{ body := .native (.builtin .yield) }]
    threads := #[{ isMain := true, parked := false, phase := .normal },
      { parked := false, phase := .running, nesting := 1, frames := #[
        { window := #[.int 5, .function ⟨0⟩, .int 7], top := 3 }] }]
    running := ⟨1⟩ }

/-- An error takes the place of the function and its argument. -/
theorem Host.containsFailures_eager : ∃ status v m',
    Exec.pcall (({} : Host).reentry 1) 1 (-1) 0 Machine.eager = .done status m' ∧
      v = .ofString "attempt to yield across a C-call boundary" ∧ status = .runtimeError ∧
      m'.frame.values = [.int 5, v] ∧ m'.thread.counts = ⟨0, 1⟩ := by
  have hc := ({} : Host).containsFailures
  have hm : Machine.eager.Prepared 1 := by
    refine ⟨by decide, rfl, by decide, by decide, ?_, by decide, .of_empty rfl fun t => ?_, ?_⟩
    · rintro ⟨_, _, _, hf, -⟩
      cases hf
    · match t with
      | ⟨0⟩ | ⟨1⟩ | ⟨_ + 2⟩ => rfl
    · intro t i f hf hc
      match t, i with
      | ⟨0⟩, 0 | ⟨1⟩, 0 | ⟨_ + 2⟩, 0 =>
        cases hf
        exact absurd rfl hc
      | ⟨0⟩, _ + 1 | ⟨1⟩, _ + 1 | ⟨_ + 2⟩, _ + 1 => cases hf
  obtain ⟨m₁, he⟩ : ∃ m₁, holding [] (call (({} : Host).reentry 1) 1 (-1)) Machine.eager =
      .raised (.thrown (.ofString "attempt to yield across a C-call boundary")) m₁ := ⟨_, rfl⟩
  have hh : Machine.eager.Handles 0 none := by rw [Machine.Handles, if_pos rfl]
  obtain ⟨m₂, -, ⟨-, k, hk, -⟩ | ⟨status, v, m', hd, hs, -, hr⟩⟩ := hc.failed hm hh he
  · cases hk
  · cases hs
    exact ⟨_, _, m', hd, rfl, rfl, hr.values, hr.counts⟩

/-- The stack of a coroutine that has yielded is at hand to the host, which is about to make a protected
call there. The callee resumes the coroutine, and then it yields. -/
def Machine.fitful : Machine :=
  { Machine.new {} with
    functions := #[{ body := .native (.script 0) }]
    threads := #[{ isMain := true, parked := false, phase := .running },
      { parked := false, status := .yield, pending := some { site := .host, wanted := -1, base := 0 },
        frames := #[{ window := #[.function ⟨0⟩], top := 1 }] }]
    running := ⟨1⟩ }

def Host.fidgeting : Host :=
  { scripts := #[[.perform (.call (.resumeRunning 0)), .perform (.call (.yield 0))]] }

/-- The resume has forgotten that the host is waiting: the protected call ends with the yield. -/
theorem Machine.fitful_unshielded : Host.fidgeting.Honest ∧ Machine.fitful.frame.top = 1 ∧ ∃ m',
    Exec.pcall (Host.fidgeting.reentry 4) 0 0 0 Machine.fitful = .done .yield m' :=
  ⟨nofun, rfl, _, rfl⟩

end LuaMachine
