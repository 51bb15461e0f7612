import LuaMachine.Proofs.Guarded.Handler

namespace LuaMachine

open Machine Exec

namespace Machine

/-- The frames above a guarded one are gone, and so are its guard and its stack. -/
def unguarded (m : Machine) (level : Nat) (us : Array Upvalue) : Machine :=
  (m.cut m.running (level + 1) us).modifyTop m.running fun f =>
    ({ f with guard := none } : Frame).setTop 0

end Machine

/-- In the frame at level `n`, now on top, a protected call has failed: false and the error object
have gone to its call site. Only a handler that does not come back leaves it without an answer. -/
def Outcome.Fails {α : Type} (honest : Prop) (t : ThreadId) (n h : Nat) (re : Reentry)
    (handler : Option Value) (e : Error) (wanted : Int) (m₀ m : Machine) (a : α) : Outcome α → Prop
  | .done a' m' => a' = a ∧ m'.running = t ∧ ∃ us v, Upvalue.Closes m.upvalues us ∧
      Caught re (m.unguarded n us) e handler v ∧
      Returned honest t n h [.bool false, v] wanted m₀ m'
  | .raised _ _ => False
  | .exhausted => ∃ us k, Upvalue.Closes m.upvalues us ∧ handler = some k ∧
      call re 1 1 ((m.unguarded n us).asking k e.toValue) = .exhausted

/-- The same with counts, where the frames above have left upvalues `us` behind. What is still on the
stack of the guarded frame goes to the call site as well. -/
def Outcome.Answers {α : Type} (honest : Prop) (t : ThreadId) (n : Nat) (c : Counts) (re : Reentry)
    (handler : Option Value) (e : Error) (us : Array Upvalue) (rest : List Value) (wanted : Int)
    (m₀ m : Machine) (a : α) : Outcome α → Prop
  | .done a' m' => a' = a ∧ m'.running = t ∧ ∃ v, Caught re (m.unguarded n us) e handler v ∧
      Handed honest t n c (rest ++ [.bool false, v]) wanted m₀ m'
  | .raised _ _ => False
  | .exhausted => ∃ k, handler = some k ∧
      call re 1 1 ((m.unguarded n us).asking k e.toValue) = .exhausted

variable {honest : Prop} {t : ThreadId} {n h : Nat} {c : Counts} {o : Origin} {m₀ m m' : Machine}
  {re : Reentry} {handler : Option Value} {e : Error}

theorem Outcome.Fails.unhandled {α : Type} {a : α} {x : Outcome α}
    (hx : x.Fails honest t n h re none e wanted m₀ m a) : ∃ m', x = .done a m' ∧ m'.running = t ∧
      Returned honest t n h [.bool false, e.toValue] wanted m₀ m' := by
  cases x with
  | done a' m' =>
    obtain ⟨rfl, ht, us, v, -, hv, hm⟩ := hx
    cases hv
    exact ⟨m', rfl, ht, hm⟩
  | raised e' m' => exact hx.elim
  | exhausted =>
    obtain ⟨us, k, -, hk, -⟩ := hx
    cases hk

theorem Outcome.Answers.fails {α : Type} {us : Array Upvalue} {wanted : Int} {a : α} {x : Outcome α}
    (hx : x.Answers honest t n c re handler e us [] wanted m₀ m a)
    (hu : Upvalue.Closes m.upvalues us) (hn : 1 < n) (hh : honest → c.hostCalls = h) :
    x.Fails honest t n h re handler e wanted m₀ m a := by
  cases x with
  | done a' m' =>
    obtain ⟨ha, hr, v, hc, hm⟩ := hx
    exact ⟨ha, hr, us, v, hu, hc, hm.returned hn hh⟩
  | raised e' m' => exact hx
  | exhausted =>
    obtain ⟨k, hk, hc⟩ := hx
    exact ⟨us, k, hu, hk, hc⟩

def Exec.answerFailed (v : Value) : Exec CallSite := do
  push (.bool false)
  push v
  leave 0

theorem Exec.answerFailed_eq (v : Value) (m : Machine) : answerFailed v m = leave 0
    ((m.modifyTop m.running (·.push (.bool false))).modifyTop m.running (·.push v)) := by
  rw [answerFailed, run_bind, run_push, Outcome.andThen_done, run_bind, run_push,
    Outcome.andThen_done, show (m.modifyTop m.running (·.push (.bool false))).running = m.running from
      rfl]

theorem answerFailed_handed (hm : Aloft honest t n c o m₀ t false m) (ht : m.running = t)
    (hs : m.frameCount = n + 1) (v : Value) :
    ∃ m', answerFailed v m = .done o.site m' ∧ m'.running = t ∧
      Handed honest t n c (m.frame.values ++ [.bool false, v]) o.wanted m₀ m' := by
  have ho : m.frame.site = o.site := congrArg Origin.site (hm.kept.origin_top ht hs)
  let put : Frame → Frame := fun f => (f.push (.bool false)).push v
  have hp : Frame.Benign put := ⟨fun _ => rfl⟩
  have hv : (put m.frame).values = m.frame.values ++ [.bool false, v] := by
    change ((m.frame.push (.bool false)).push v).values = _
    rw [Frame.values_push, Frame.values_push, List.append_assoc]
    rfl
  subst ht
  obtain ⟨us, hu, he⟩ := run_leaveChanged m hm.kept.one_lt_size put
  rw [hv, ho] at he
  have hmod : (m.modifyTop m.running (·.push (.bool false))).modifyTop m.running (·.push v) =
      m.modifyTop m.running put := modifyTop_modifyTop ..
  refine ⟨m.left us (m.frame.values ++ [.bool false, v]), ?_, rfl, hm.handed_left rfl hs hu⟩
  rw [left, answerFailed_eq, hmod, he]

theorem Aloft.unguarded (hm : Aloft honest t n c o m₀ t false m) (ht : m.running = t)
    {us : Array Upvalue} (hu : Upvalue.Closes m.upvalues us) :
    Aloft honest t n c o m₀ t false (m.unguarded n us) ∧ (m.unguarded n us).frameCount = n + 1 := by
  subst ht
  have hc := hm.cut (Nat.lt_succ_self n) hu
  have hg : Aloft honest m.running n c o m₀ m.running false
      ((m.cut m.running (n + 1) us).modifyTop m.running fun f => { f with guard := none }) :=
    Condition.Guards.guarding m.running none hc
  have hs : Aloft honest m.running n c o m₀ m.running false
    (((m.cut m.running (n + 1) us).modifyTop m.running _).modifyTop m.running (·.setTop 0)) :=
    Condition.Steady.top _ _ hg
  rw [modifyTop_modifyTop] at hs
  refine ⟨hs, ?_⟩
  have hl := hm.kept.size_lt
  change (((m.cut m.running (n + 1) us).modifyTop m.running _).threadAt m.running).frames.size = _
  rw [size_modifyTop, size_cut hm.kept.one_lt_size]
  omega

theorem nesting_unguarded (hm : Shelter honest t n h o m₀ t false m) (ht : m.running = t)
    (us : Array Upvalue) : (m.unguarded n us).thread.nesting = m.thread.nesting := by
  subst ht
  refine ((m.cut m.running (n + 1) us).nesting_modifyTop m.running m.running _).trans ?_
  rw [threadAt_cut hm.one_lt_size]
  rfl

theorem top_unguarded (hm : Shelter honest t n h o m₀ t false m) (ht : m.running = t)
    (us : Array Upvalue) : ((m.unguarded n us).frameAt t).top = 0 := by
  subst ht
  rw [unguarded, frameAt_modifyTop_self]
  · rfl
  · have hl := hm.size_lt
    have hs := hm.one_lt_size
    have hp := hm.positive
    rw [size_cut hs]
    omega

theorem recover_eq (re : Reentry) (ht : m.running = t) (hm : Shelter honest t n h o m₀ t false m)
    (hg : ((m.threadAt t).frames[n]?).bind Frame.guard = some { handler }) {us : Array Upvalue}
    (he : truncateFrames (n + 1) m = .done () (m.cut m.running (n + 1) us)) :
    recover re n e m = (caughtValue re handler e (m.unguarded n us)).andThen answerFailed := by
  subst ht
  have hf : (m.cut m.running (n + 1) us).frame.guard.bind Guard.handler = handler := by
    have hf : (m.cut m.running (n + 1) us).frame = _ := frameAt_cut hm.one_lt_size hm.size_lt
    rw [hf]
    obtain ⟨f, hf, hg⟩ := Option.bind_eq_some_iff.mp hg
    rw [hf, Option.getD_some, hg]
    rfl
  have hmod : ((m.cut m.running (n + 1) us).modifyTop m.running fun f =>
      { f with guard := none }).modifyTop m.running (·.setTop 0) = m.unguarded n us :=
    modifyTop_modifyTop ..
  rw [recover, unwindTo, Nat.max_eq_left (by omega), run_bind, he, Outcome.andThen_done, run_bind,
    run_takeGuard, Outcome.andThen_done, run_bind, run_modifyFrame, Outcome.andThen_done, run_bind, hf]
  exact congrArg (fun m => (caughtValue re handler e m).andThen _) hmod

section Recover

variable {us : Array Upvalue} (hre : re.Shelters honest t) (ht : m.running = t)
  (hm : Aloft honest t n c o m₀ t false m) (hu : Upvalue.Closes m.upvalues us)
  (he : truncateFrames (n + 1) m = .done () (m.cut m.running (n + 1) us))

include ht hm he

theorem recover_answered {rest : List Value} {v : Value} {m₁ : Machine}
    (hg : ((m.threadAt t).frames[n]?).bind Frame.guard = some { handler })
    (hv : caughtValue re handler e (m.unguarded n us) = .done v m₁) (hr : m₁.running = t)
    (hm₁ : Aloft honest t n c o m₀ t false m₁) (hs : m₁.frameCount = n + 1)
    (hrest : m₁.frame.values = rest) : ∃ m', recover re n e m = .done o.site m' ∧ m'.running = t ∧
      Handed honest t n c (rest ++ [.bool false, v]) o.wanted m₀ m' := by
  rw [recover_eq re ht hm.kept hg he, hv, Outcome.andThen_done, ← hrest]
  exact answerFailed_handed hm₁ hr hs v

include hu

include hre in
/-- The loop ends a protected call. -/
theorem recover_answers (hg : ((m.threadAt t).frames[n]?).bind Frame.guard = some { handler })
    (hl : handler = none ∨ m.thread.nesting < m.limits.nesting) :
    (recover re n e m).Answers honest t n c re handler e us [] o.wanted m₀ m o.site := by
  obtain ⟨hs, hc⟩ := hm.unguarded ht hu
  have hready := hc ▸ hs.ready ht
  cases hv : caughtValue re handler e (m.unguarded n us) with
  | done v m₁ =>
    obtain ⟨hr₁, hx⟩ := caughtValue_landed hre hready ht
      ((nesting_unguarded hm.kept ht us).symm ▸ hl) hv
    have hs₁ : Aloft honest t n c o m₀ t false m₁ := hs.ofLanded (Nat.lt_succ_self n)
      (Nat.le_of_eq hready.size.symm) (hx.congr (by simp))
    have htop : (m₁.frameAt t).top = 0 :=
      (hx.kept (getElem?_top hready.size)).top_eq.trans (top_unguarded hm.kept ht us)
    rw [← hr₁] at htop
    obtain ⟨m₂, he₂, hr₂, hx₂⟩ := recover_answered ht hm he hg hv hr₁ hs₁ (hx.frameCount hr₁)
      (Frame.values_empty htop)
    rw [he₂]
    exact ⟨rfl, hr₂, v, caught_of_done hv, hx₂⟩
  | raised e' m₁ =>
    rcases caughtValue_done re handler e (m.unguarded n us) with hd | ⟨v, m', hd⟩ <;>
      exact absurd (hv.symm.trans hd) nofun
  | exhausted =>
    obtain ⟨k, hk, hcall⟩ := asks_of_exhausted hv
    rw [recover_eq re ht hm.kept hg he, hv]
    exact ⟨k, hk, hcall⟩

/-- At the limit of nesting the handler and the error stay on the stack, and go to the call site
with the others. -/
theorem recover_limited {k : Value}
    (hg : ((m.threadAt t).frames[n]?).bind Frame.guard = some { handler := some k })
    (hl : m.limits.nesting ≤ m.thread.nesting) :
    ∃ m', recover re n e m = .done o.site m' ∧ m'.running = t ∧ Handed honest t n c
      [k, e.toValue, .bool false, Error.handlerFailed.toValue] o.wanted m₀ m' := by
  obtain ⟨hs, hc⟩ := hm.unguarded ht hu
  have hready := hc ▸ hs.ready ht
  have hl' : (m.unguarded n us).limits.nesting ≤ (m.unguarded n us).thread.nesting :=
    (nesting_unguarded hm.kept ht us).symm ▸ hl
  obtain ⟨m₁, hv, hr₁, hth, hx⟩ := caughtValue_limited re e (k := k) hready ht hl'
  have hs₁ : Aloft honest t n _ o m₀ t false m₁ := (hs.asking k e.toValue).ofLanded
    (Nat.lt_succ_self n) (Nat.le_of_eq (hready.asking ht k e.toValue).size.symm) (hx.congr (by simp))
  have hv₁ : m₁.frame.values = [k, e.toValue] := by
    have hf : m₁.frameAt t = ((m.unguarded n us).asking k e.toValue).frameAt t := by
      rw [frameAt, hth, frameAt]
    rw [Machine.frame, hr₁, hf, frameAt_asking hs.kept.one_lt_size ht, Frame.values_push,
      Frame.values_push, Frame.values_empty (top_unguarded hm.kept ht us)]
    rfl
  obtain ⟨m₂, he₂, hr₂, hx₂⟩ := recover_answered ht hm he hg hv hr₁ hs₁ (hx.frameCount hr₁) hv₁
  exact ⟨m₂, he₂, hr₂, hx₂⟩

end Recover

theorem recover_fails (hre : re.Shelters honest t) (hn : 1 < n) (ht : m.running = t)
    (hm : Shelter honest t n h o m₀ t false m)
    (hg : ((m.threadAt t).frames[n]?).bind Frame.guard = some { handler })
    (hl : handler = none ∨ m.thread.nesting < m.limits.nesting) :
    (recover re n e m).Fails honest t n h re handler e o.wanted m₀ m o.site := by
  obtain ⟨us, hu, he⟩ := run_truncateFrames (n + 1) m
  exact (recover_answers hre ht hm.aloft hu he hg hl).fails hu hn fun hh => (hm.calm hh).1

def Exec.returnFailed (v : Value) : Exec Nat := do
  modifyFrame (·.setTop 0)
  push (.bool false)
  push v
  return 2

def Frame.answered (v : Value) (f : Frame) : Frame := ((f.setTop 0).push (.bool false)).push v

instance (v : Value) : Frame.Plain (Frame.answered v) where
  origin _ := rfl
  guard _ := rfl
  captured _ := rfl

theorem Frame.values_answered (v : Value) (f : Frame) : (f.answered v).values = [.bool false, v] := by
  rw [answered, values_push, values_push, values_setTop f 0 (Nat.zero_le _), List.take_zero]
  rfl

theorem returnFailed_eq (v : Value) (m : Machine) :
    returnFailed v m = .done 2 (m.modifyTop m.running (Frame.answered v)) := by
  have hmod : ((m.modifyTop m.running (·.setTop 0)).modifyTop m.running
      (·.push (.bool false))).modifyTop m.running (·.push v) =
        m.modifyTop m.running (Frame.answered v) := by
    rw [modifyTop_modifyTop, modifyTop_modifyTop]
    rfl
  exact congrArg (Outcome.done 2) hmod

theorem endFailed_eq (re : Reentry) (ht : m.running = t) (hm : Shelter honest t n h o m₀ t false m)
    {f : Frame} (hf : (m.threadAt t).frames[n]? = some f) (hg : f.guard = some { handler })
    (htop : f.top = 0) {us : Array Upvalue}
    (he : truncateFrames (n + 1) m = .done () (m.cut m.running (n + 1) us)) :
    endFailed re (n + 1) e m =
      (caughtValue re handler e (m.unguarded n us)).andThen returnFailed := by
  subst ht
  have hc : (m.cut m.running (n + 1) us).frame = f :=
    (frameAt_cut hm.one_lt_size hm.size_lt).trans (by rw [hf]; rfl)
  have hs : 1 < ((m.cut m.running (n + 1) us).threadAt m.running).frames.size := by
    have hl := hm.size_lt
    have hp := hm.positive
    rw [size_cut hm.one_lt_size]
    omega
  have hmod : (m.cut m.running (n + 1) us).modifyTop m.running (fun f => { f with guard := none }) =
      m.unguarded n us := by
    refine modifyTop_congr ?_
    change ({ (m.cut m.running (n + 1) us).frame with guard := none } : Frame) =
      ({ (m.cut m.running (n + 1) us).frame with guard := none } : Frame).setTop 0
    rw [hc, Frame.setTop_of_top (show ({ f with guard := none } : Frame).top = 0 from htop)]
  rw [endFailed, run_bind, he, Outcome.andThen_done, run_bind, run_takeGuard, Outcome.andThen_done,
    run_bind, hc, hg]
  exact congrArg (fun m => (caughtValue re handler e m).andThen _) hmod

theorem endNative_all {k : Nat} {vs : List Value} (hm : Shelter honest t n h o m₀ t false m) (hn : 1 < n)
    (ht : m.running = t) (hs : m.frameCount = n + 1) (hv : m.frame.values = vs)
    (hk : vs.length = k) : ∃ m', endNative n k o.wanted m = .done false m' ∧ m'.running = t ∧
      Returned honest t n h vs o.wanted m₀ m' := by
  subst ht hv hk
  obtain ⟨m₁, he, hr, hx⟩ := returned_endNative m.frame.values.length hn rfl hm
  have hf : (m.threadAt m.running).frames[n]? = some m.frame := getElem?_top hs
  rw [hf, Option.getD_some, Frame.length_values, Frame.topValues_all] at hx
  exact ⟨m₁, he, hr, hx⟩

section Start

variable (host : Host) {fuel : Nat} {p : FunctionId} {b : Builtin} {xs args : List Value}
  {callee : Value} {wanted : Int} {site : CallSite} {P : Frame}
  (hr : (m.threadAt t).Ready host.Honest n h False) (ht : m.running = t)
  (hP : P.control = Frame.guarding p handler wanted site)
  (hi : (host.reentry (fuel + 1)).invoke (.builtin b)
    (m.enterFrame t (nativeFrame p xs wanted site)) = afterStart (host.reentry fuel) (n + 1)
      (callValue (host.reentry fuel) callee args (-1) .guarded (m.enterFrame t P)))

include hr ht hP hi

theorem callNative_fails (hy : e ≠ .yield)
    (hc : callValue (host.reentry fuel) callee args (-1) .guarded (m.enterFrame t P) =
      .raised e m') :
    (callNative (host.reentry (fuel + 1)) p (.builtin b) xs wanted site m).Fails host.Honest t n h
      (host.reentry fuel) handler e wanted m m' false := by
  have hre : (host.reentry fuel).Shelters host.Honest t := host.shelters id t fuel
  subst ht
  have hs := hr.exposed.enterFrame P
  have hn := frameCount_enterFrame hr.one_lt_size P
  rw [show m.frameCount = n from hr.size] at hn
  have hready := hn ▸ hs.ready rfl
  have hst := started_callValue hre callee args (-1) .guarded hready rfl
  rw [hc] at hst
  obtain ⟨hr', hst⟩ := hst
  have hx := (hst.resolve_right fun hf => hy hf.1).exposed.still fun _ => by
    simp [Error.isYield_of_ne hy]
  have hm' : Shelter host.Honest m.running n h P.origin m m.running false m' :=
    hs.ofExposed (Nat.lt_succ_self n) (Nat.le_of_eq hready.size.symm) (hx.congr (by simp))
  have hk := (hx.landed.kept (getElem?_top hready.size)).1
  rw [show (m.enterFrame m.running P).frameAt m.running = P from frame_enterFrame hr.one_lt_size P,
    hP] at hk
  obtain ⟨us, hu, ht⟩ := run_truncateFrames (n + 1) m'
  rw [hc, afterStart_raised hy, endFailed_eq (host.reentry fuel) hr' hm' (getElem?_top hx.ready.size)
    (congrArg Frame.guard hk : (m'.frameAt m.running).control.guard = _)
    (congrArg Frame.top hk : (m'.frameAt m.running).control.top = _) ht] at hi
  obtain ⟨hs', hc'⟩ := hm'.aloft.unguarded hr' hu
  have hready' := hc' ▸ hs'.ready hr'
  have hrun := callNative_eq (host.reentry (fuel + 1)) p (.builtin b) xs wanted site m
    (m.index_lt hr.one_lt_size)
  rw [hi, show m.frameCount = n from hr.size] at hrun
  cases hv : caughtValue (host.reentry fuel) handler e (m'.unguarded n us) with
  | done v m₁ =>
    have hk₁ := (Shelter.keeps_caughtValue hre handler e :
      Keeps (Shelter host.Honest m.running n h P.origin m) _).endsIn (m := m'.unguarded n us) hr'
        (hs'.shelter fun hh => (hm'.calm hh).1)
    rw [hv] at hk₁
    obtain ⟨hr₁, hm₁⟩ := hk₁
    have hs₁ := caughtValue_size hre hready' hr' hv
    have hm₂ : Shelter host.Honest m.running n h P.origin m m.running false
        (m₁.modifyTop m₁.running (Frame.answered v)) := Condition.Steady.top _ _ hm₁
    have hc₂ : (m₁.modifyTop m₁.running (Frame.answered v)).frameCount = n + 1 :=
      (size_modifyTop ..).trans (hr₁.symm ▸ hs₁)
    have hf₂ : (m₁.modifyTop m₁.running (Frame.answered v)).frame =
        (m₁.frameAt m₁.running).answered v :=
      frameAt_modifyTop_self (hr₁.symm ▸ hm₁.one_lt_size) _
    obtain ⟨m₃, he₃, hr₃, hx₃⟩ := endNative_all (k := 2) hm₂ hr.many hr₁ hc₂
      (hf₂ ▸ Frame.values_answered v (m₁.frameAt m₁.running)) rfl
    have hw : P.origin.wanted = wanted := (congrArg Frame.wanted hP : P.control.wanted = _)
    rw [hw] at he₃ hx₃
    rw [hv, Outcome.andThen_done, returnFailed_eq] at hrun
    dsimp only at hrun
    rw [if_neg (by simp [hc₂]), he₃] at hrun
    rw [hrun]
    exact ⟨rfl, hr₃, us, v, hu, caught_of_done hv, hx₃⟩
  | raised e' m₁ =>
    rcases caughtValue_done (host.reentry fuel) handler e (m'.unguarded n us) with
      hd | ⟨v, m', hd⟩ <;> exact absurd (hv.symm.trans hd) nofun
  | exhausted =>
    obtain ⟨k, hk, hcall⟩ := asks_of_exhausted hv
    rw [hv] at hrun
    rw [hrun]
    exact ⟨us, k, hu, hk, hcall⟩

theorem callNative_left
    (hc : callValue (host.reentry fuel) callee args (-1) .guarded (m.enterFrame t P) =
      .done true m') :
    callNative (host.reentry (fuel + 1)) p (.builtin b) xs wanted site m = .done true m' ∧
      m'.running = t ∧ ∃ o, o.site = .guarded ∧ o.wanted = -1 ∧
        Shelter host.Honest t (n + 1) h o (m.enterFrame t P) t false m' := by
  subst ht
  have hn := frameCount_enterFrame hr.one_lt_size P
  rw [show m.frameCount = n from hr.size] at hn
  have hready := hn ▸ (hr.exposed.enterFrame P).ready rfl
  have hst := started_callValue (host.shelters id m.running fuel) callee args (-1) .guarded hready rfl
  rw [hc] at hst hi
  obtain ⟨hr', o, hs, hw, hm'⟩ := hst
  have hg : m'.isGuarded n = true := by
    obtain ⟨f, hf, hk⟩ := hm'.intact.frames n (Nat.lt_succ_self n) P
      ((getElem?_top hready.size).trans (congrArg some (frame_enterFrame hr.one_lt_size P)))
    have hfg : f.guard = P.guard := (congrArg Frame.guard hk.1 : f.control.guard = P.control.guard)
    have hPg : P.guard = some { handler } := (congrArg Frame.guard hP : P.control.guard = _)
    rw [Machine.isGuarded, Machine.thread, hr', hf, Option.any_some, hfg, hPg]
    rfl
  refine ⟨?_, hr', o, hs, hw, hm'⟩
  rw [callNative_eq _ _ _ _ _ _ _ (m.index_lt hr.one_lt_size), hi,
    show m.frameCount = n from hr.size]
  change (if (m'.isGuarded n && decide (n + 1 < m'.frameCount)) = true then Outcome.done true m'
    else endNative n 0 wanted m') = _
  rw [if_pos (by simp [hg, hm'.lt_frameCount hr'])]

end Start

/-- How protected calls fail. -/
structure Host.AnswersFailures (host : Host) : Prop where
  /-- The callee is started above an empty frame with a guard. If it fails at once, or cannot be
  called at all, then the call is over; if there is a frame to run, it is left to the loop. -/
  started : ∀ {fuel h : Nat} {m : Machine} {p : FunctionId} {b : Builtin} {xs : List Value}
      {q : Protection} (wanted : Int) (site : CallSite),
    (m.threadAt m.running).Ready host.Honest m.frameCount h False →
    (m.functionAt p).body = .native (.builtin b) → b.protection? xs = some q →
    ∃ P : Frame, P.control = Frame.guarding p q.handler wanted site ∧
      (∀ e m', e ≠ .yield → callValue (host.reentry fuel) q.callee q.args (-1) .guarded
          (m.enterFrame m.running P) = .raised e m' →
        (callNative (host.reentry (fuel + 1)) p (.builtin b) xs wanted site m).Fails host.Honest
          m.running m.frameCount h (host.reentry fuel) q.handler e wanted m m' false) ∧
      ∀ m', callValue (host.reentry fuel) q.callee q.args (-1) .guarded
          (m.enterFrame m.running P) = .done true m' →
        callNative (host.reentry (fuel + 1)) p (.builtin b) xs wanted site m = .done true m' ∧
          m'.running = m.running ∧ ∃ o, o.site = .guarded ∧ o.wanted = -1 ∧
            Shelter host.Honest m.running (m.frameCount + 1) h o (m.enterFrame m.running P) m.running
              false m'
  caught : ∀ {fuel stop n h : Nat} {t : ThreadId} {o : Origin} {m₀ m : Machine}
      {handler : Option Value} {e : Error},
    1 < n → (Point.failing e m).Above host.Honest t n h o m₀ → e ≠ .yield →
    m.guardedLevel? stop = some n →
    ((m.threadAt t).frames[n]?).bind Frame.guard = some { handler } →
    handler = none ∨ m.thread.nesting < m.limits.nesting →
    (Point.failing e m).next? (host.reentry fuel) stop =
        ((some <$> recover (host.reentry fuel) n e) m).point? ∧
      (recover (host.reentry fuel) n e m).Fails host.Honest t n h (host.reentry fuel) handler e
        o.wanted m₀ m o.site
  limited : ∀ {fuel n h : Nat} {t : ThreadId} {o : Origin} {m₀ m : Machine} {k : Value} {e : Error},
    1 < n → (Point.failing e m).Above host.Honest t n h o m₀ → e ≠ .yield →
    ((m.threadAt t).frames[n]?).bind Frame.guard = some { handler := some k } →
    m.limits.nesting ≤ m.thread.nesting →
    ∃ m', recover (host.reentry fuel) n e m = .done o.site m' ∧ m'.running = t ∧
      Returned host.Honest t n h [k, e.toValue, .bool false, Error.handlerFailed.toValue] o.wanted
        m₀ m'

/-- A protected call that fails answers with false and the error object. In the loop this takes a
handler that can be called. -/
theorem Host.answersFailures (host : Host) : host.AnswersFailures where
  started wanted site hr hp hq := by
    obtain ⟨P, hP, hi⟩ := native_protecting _ host wanted site hr.one_lt_size hp hq
    exact ⟨P, hP, fun e m' hy hc => callNative_fails host hr rfl hP hi hy hc,
      fun m' hc => callNative_left host hr rfl hP hi hc⟩
  caught {fuel stop n h t o m₀ m handler e} hn hp hy hl hg hlim := by
    refine ⟨?_, recover_fails (host.shelters id t fuel) hn hp.1 (Error.isYield_of_ne hy ▸ hp.2) hg
      hlim⟩
    rw [Point.next?, if_neg hy, hl, Option.bind_some]
  limited {fuel n h t o m₀ m k e} hn hp hy hg hl := by
    obtain ⟨us, hu, he⟩ := run_truncateFrames (n + 1) m
    have hm : Shelter host.Honest t n h o m₀ t false m := Error.isYield_of_ne hy ▸ hp.2
    obtain ⟨m', hr, ht', hx⟩ := (recover_limited hp.1 hm.aloft hu he hg hl :
      ∃ m', recover (host.reentry fuel) n e m = _ ∧ _)
    exact ⟨m', hr, ht', hx.returned hn fun hh => (hm.calm hh).1⟩

/-- A protected call of a function, above the one that has made it and wants two results. -/
def Machine.foiled : Machine :=
  { Machine.new {} with
    functions := #[{ body := .bytecode { registers := 1 } }, { body := .native (.builtin .pcall) }]
    threads := #[{ isMain := true, parked := false, phase := .running, frames := #[{},
      { window := #[.nil], top := 1, function := some ⟨0⟩, pc := 4 },
      { function := some ⟨1⟩, site := .call 0 3, wanted := 2, guard := some { handler := none } },
      { window := #[.nil], top := 1, function := some ⟨0⟩, site := .guarded, wanted := -1 }] }] }

/-- The callee fails with 7, and the function gets false and 7. -/
theorem Host.answersFailures_foiled : ∃ m',
    (Point.failing (.thrown (.int 7)) Machine.foiled).next? (({} : Host).reentry 1) 1 =
      some (.delivering (.call 0 3) m') ∧ m'.running = mainThread ∧
    Returned ({} : Host).Honest mainThread 2 0 [.bool false, .int 7] 2 Machine.foiled m' := by
  have hshelter : Shelter ({} : Host).Honest mainThread 2 0 ⟨some ⟨1⟩, [], .call 0 3, 2⟩
      Machine.foiled mainThread false Machine.foiled := by
    refine ⟨.refl .., rfl, by decide, fun i hi f hf => ?_, rfl, by decide,
      fun _ => ⟨rfl, nofun, .inl rfl⟩⟩
    match i with
    | 3 =>
      cases hf
      nofun
    | _ + 4 => cases hf
  have habove : (Point.failing (.thrown (.int 7)) Machine.foiled).Above ({} : Host).Honest mainThread
      2 0 ⟨some ⟨1⟩, [], .call 0 3, 2⟩ Machine.foiled := ⟨rfl, hshelter⟩
  have hlevel : Machine.foiled.guardedLevel? 1 = some 2 := rfl
  obtain ⟨hnext, hfails⟩ := ({} : Host).answersFailures.caught (by decide) habove nofun hlevel rfl
    (.inl rfl)
  obtain ⟨m', hd, hr, hm⟩ := hfails.unhandled
  exact ⟨m', by rw [hnext, ← bind_pure_comp, run_bind, hd]; rfl, hr, hm⟩

/-- A function calls its first argument with the second one as message handler, at the limit of
nesting. -/
def Machine.hopeless : Machine :=
  { Machine.new { nesting := 1 } with
    functions := #[
      { body := .bytecode { registers := 3, code := #[.ofABC .call 0 3 0, .ofABC .return 0 0 0] } },
      { body := .native (.builtin .xpcall) },
      { body := .bytecode { code := #[.ofABC .extraArg 0 0 0] } },
      { body := .native (.builtin .type) }]
    threads := #[{ isMain := true, parked := false, phase := .running, nesting := 1, frames := #[{}, {
      window := #[.function ⟨1⟩, .function ⟨2⟩, .function ⟨3⟩], top := 3, function := some ⟨0⟩,
      wanted := -1 }] }] }

def Outcome.stack? {α : Type} : Outcome α → Option (List Value)
  | .done _ m => some m.frame.values
  | _ => none

/-- The handler and the error that it is called with are among the results. -/
theorem Machine.hopeless_answers :
    (dispatch (({} : Host).reentry 3) 9 1 none Machine.hopeless).stack? =
      some [.function ⟨3⟩, (Error.fault .strayExtraArg none).toValue, .bool false,
        Error.handlerFailed.toValue] := by
  decide +kernel

end LuaMachine
