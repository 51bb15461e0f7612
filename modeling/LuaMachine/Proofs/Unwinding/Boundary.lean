import LuaMachine.Proofs.Unwinding.Closing
import LuaMachine.Proofs.Unwinding.Walk
import LuaMachine.Proofs.Upvalue.Bytecode
import LuaMachine.Proofs.Upvalue.Discipline

/-!
Where an error ends. The innermost guarded frame of the loop catches it, and apart from the results
that go to the call site of that frame the thread is what it has been below. The thread must not have
yielded when the loop begins: a function that the loop runs could resume it.
-/

namespace LuaMachine

open Machine Exec Relation

namespace Machine

/-- A dispatch loop begins in the running thread, above `stop` frames of it. It runs the frame on
top, or hands results on top of it over to a call site. -/
structure Enters (m : Machine) (stop : Nat) (site : Option CallSite) : Prop where
  positive : 0 < stop
  there : m.running.index < m.threads.size
  parked : m.thread.parked = false
  status : m.thread.status ≠ .yield
  above : match site with
    | none => stop < m.frameCount
    | some _ => stop ≤ m.frameCount

variable {m : Machine} {stop n : Nat}

theorem find?_reverse_range' (p : Nat → Bool) (start k n : Nat) :
    (List.range' start k).reverse.find? p = some n ↔
      start ≤ n ∧ n < start + k ∧ p n = true ∧ ∀ i, n < i → i < start + k → p i = false := by
  induction k with
  | zero => simp; omega
  | succ k ih =>
    rw [List.range'_concat, List.reverse_concat, List.find?_cons, Nat.one_mul]
    cases hp : p (start + k) with
    | true =>
      simp only [Option.some.injEq]
      refine ⟨?_, fun ⟨_, hn, _, hi⟩ => ?_⟩
      · rintro rfl
        exact ⟨by omega, by omega, hp, fun i _ _ => by omega⟩
      · refine Classical.byContradiction fun hne => ?_
        rw [hi (start + k) (by omega) (by omega)] at hp
        cases hp
    | false =>
      rw [ih]
      refine and_congr_right fun _ => ⟨fun ⟨hn, hpn, hi⟩ => ⟨by omega, hpn, fun i h₁ h₂ => ?_⟩,
        fun ⟨hn, hpn, hi⟩ => ⟨?_, hpn, fun i h₁ h₂ => hi i h₁ (by omega)⟩⟩
      · by_cases he : i = start + k
        · rw [he, hp]
        · exact hi i h₁ (by omega)
      · refine Classical.byContradiction fun hne => ?_
        obtain rfl : n = start + k := by omega
        rw [hp] at hpn
        cases hpn

theorem isGuarded_lt (h : m.isGuarded n = true) : n < m.frameCount := by
  refine Nat.not_le.mp fun hc => ?_
  rw [isGuarded, Array.getElem?_eq_none hc] at h
  cases h

/-- The guarded frame that catches an error is the innermost one above the depth of the loop. -/
theorem guardedLevel?_eq_some : m.guardedLevel? stop = some n ↔
    stop ≤ n ∧ m.isGuarded n = true ∧ ∀ i, n < i → m.isGuarded i = false := by
  rw [guardedLevel?, find?_reverse_range']
  refine and_congr_right fun hs => ⟨fun ⟨_, hg, hi⟩ => ⟨hg, fun i hn => ?_⟩,
    fun ⟨hg, hi⟩ => ⟨?_, hg, fun i hn _ => hi i hn⟩⟩
  · by_cases hc : i < m.frameCount
    · exact hi i hn (by omega)
    · exact Bool.eq_false_iff.mpr fun hg => hc (isGuarded_lt hg)
  · have := isGuarded_lt hg
    omega

theorem guardedLevel?_eq_none :
    m.guardedLevel? stop = none ↔ ∀ i, stop ≤ i → m.isGuarded i = false := by
  rw [guardedLevel?, List.find?_eq_none]
  refine ⟨fun h i hs => ?_, fun h i hi => ?_⟩
  · refine Bool.eq_false_iff.mpr fun hg => h i ?_ hg
    have := isGuarded_lt hg
    rw [List.mem_reverse, List.mem_range'_1]
    omega
  · rw [List.mem_reverse, List.mem_range'_1] at hi
    rw [h i hi.1]
    exact Bool.false_ne_true

theorem exists_guard (h : m.isGuarded n = true) :
    ∃ P handler, m.thread.frames[n]? = some P ∧ P.guard = some { handler } := by
  rw [isGuarded] at h
  cases hP : m.thread.frames[n]? with
  | none =>
    rw [hP] at h
    cases h
  | some P =>
    rw [hP] at h
    obtain ⟨⟨handler⟩, hg⟩ := Option.isSome_iff_exists.mp h
    exact ⟨P, handler, rfl, hg⟩

end Machine

/-- The protected call of the frame at level `n`, where the frames above have left upvalues `us`
behind: it ends with results for its call site, unless the message handler does not come back. -/
def Outcome.Unwinds (t : ThreadId) (n : Nat) (c : Counts) (re : Reentry) (handler : Option Value)
    (e : Error) (us : Array Upvalue) (P : Frame) (m₀ m : Machine) : Outcome CallSite → Prop
  | .done site m' => site = P.site ∧ m'.running = t ∧ ∃ vs, Handed False t n c vs P.wanted m₀ m'
  | .raised _ _ => False
  | .exhausted => ∃ k, handler = some k ∧
      call re 1 1 ((m.unguarded n us).asking k e.toValue) = .exhausted

variable {t : ThreadId} {n stop : Nat} {c : Counts} {m₀ m : Machine} {re : Reentry} {p q : Point}
  {e : Error} {P : Frame} {handler : Option Value} {us : Array Upvalue}

theorem Handed.trans {honest : Prop} {vs : List Value} {wanted : Int} {m₁ : Machine}
    (hi : Intact t n m₁ m₀) (hm : Handed honest t n c vs wanted m₀ m) :
    Handed honest t n c vs wanted m₁ m := by
  obtain ⟨m', rfl, hx⟩ := hm
  exact ⟨m', rfl, hx.trans hi⟩

theorem Outcome.Unwinds.trans {x : Outcome CallSite} {m₁ : Machine} (hi : Intact t n m₁ m₀)
    (hx : x.Unwinds t n c re handler e us P m₀ m) : x.Unwinds t n c re handler e us P m₁ m := by
  cases x with
  | done site m' =>
    obtain ⟨hs, hr, vs, hm⟩ := hx
    exact ⟨hs, hr, vs, hm.trans hi⟩
  | raised e' m' => exact hx
  | exhausted => exact hx

theorem Outcome.Answers.unwinds {x : Outcome CallSite} {rest : List Value}
    (hx : x.Answers False t n c re handler e us rest P.wanted m₀ m P.site) :
    x.Unwinds t n c re handler e us P m₀ m := by
  cases x with
  | done site m' =>
    obtain ⟨hs, hr, v, -, hm⟩ := hx
    exact ⟨hs, hr, _, hm⟩
  | raised e' m' => exact hx
  | exhausted => exact hx

theorem truncateFrames_top (hm : Landed False t (n + 1) c m₀ False m) (ht : m.running = t) :
    truncateFrames (n + 1) m = .done () (m.cut m.running (n + 1) m.upvalues) := by
  rw [cut_all (Nat.le_of_eq (hm.frameCount ht))]
  exact truncateFrames_of_le (Nat.le_of_eq (hm.frameCount ht))

theorem recover_top (hre : re.Shelters False t) (hm : Landed False t (n + 1) c m₀ False m)
    (ht : m.running = t) (h0 : 0 < n) (hP : (m₀.threadAt t).frames[n]? = some P)
    (hg : ((m.threadAt t).frames[n]?).bind Frame.guard = some { handler }) :
    (recover re n e m).Unwinds t n c re handler e m.upvalues P m₀ m := by
  have ha := hm.aloft h0 hP
  have he := truncateFrames_top hm ht
  by_cases hl : handler = none ∨ m.thread.nesting < m.limits.nesting
  · exact (recover_answers hre ht ha (.refl _) he hg hl).unwinds
  · obtain ⟨hs, hn⟩ := not_or.mp hl
    obtain ⟨h, rfl⟩ := Option.ne_none_iff_exists'.mp hs
    obtain ⟨m', hd, hr', hx⟩ := recover_limited (e := e) ht ha (.refl _) he hg (Nat.not_lt.mp hn)
    rw [hd]
    exact ⟨rfl, hr', _, hx⟩

theorem recover_plainTop (re : Reentry) (e : Error) (hm : Landed False t (n + 1) c m₀ False m)
    (ht : m.running = t) (h0 : 0 < n) (hP₀ : (m₀.threadAt t).frames[n]? = some P)
    (hP : (m.threadAt t).frames[n]? = some P) (hg : P.guard = some { handler := none })
    (hc : P.captured = []) : recover re n e m = .done P.site ((m.cut t n m.upvalues).modifyTop t
      (·.pushAll (adjust [.bool false, e.toValue] P.wanted))) := by
  subst ht
  have hone : 1 < m.frameCount := by rw [hm.frameCount rfl]; omega
  have htop : m.frame = P := Option.some.inj ((getElem?_top hm.size).symm.trans hP)
  let answer : Frame → Frame := fun f => ({ f with guard := none } : Frame).answered e.toValue
  have ha : Frame.Benign answer := ⟨fun _ => rfl⟩
  have hl := leave_changed hone answer (by rw [htop]; exact hc)
  have hmod : ((m.unguarded n m.upvalues).modifyTop m.running (·.push (.bool false))).modifyTop
      m.running (·.push e.toValue) = m.modifyTop m.running answer := by
    rw [unguarded, cut_all (Nat.le_of_eq hm.size), modifyTop_modifyTop, modifyTop_modifyTop]
    rfl
  rw [htop, hm.frameCount rfl, Nat.add_sub_cancel, show (answer P).values = _ from
    Frame.values_answered ..] at hl
  rw [recover_eq re rfl (hm.aloft h0 hP₀).kept (by rw [hP, Option.bind_some, hg])
    (truncateFrames_top hm rfl), caughtValue_absent, Outcome.andThen_done, answerFailed_eq]
  exact (congrArg (leave 0) hmod).trans hl

section Recover

variable {k : Nat} (hm : Landed False t k c m False m) (ht : m.running = t) (h0 : 0 < n)
  (hn : n < k) (hP : (m.threadAt t).frames[n]? = some P) (hg : P.guard = some { handler })
  (hu : Upvalue.Closes m.upvalues us)
  (he : truncateFrames (n + 1) m = .done () (m.cut m.running (n + 1) us))

include hm ht h0 hn hP hg hu he

theorem recover_unwinds (hre : re.Shelters False t) :
    (recover re n e m).Unwinds t n c re handler e us P m m := by
  subst ht
  have hP₁ : ((m.cut m.running (n + 1) us).threadAt m.running).frames[n]? = some P := by
    rw [threadAt_cut_there hm.there, getElem?_take, if_pos (Nat.lt_succ_self n), hP]
  have hg₁ : (((m.cut m.running (n + 1) us).threadAt m.running).frames[n]?).bind Frame.guard =
      some { handler } := by rw [hP₁, Option.bind_some, hg]
  have hr := recover_top (e := e) hre (hm.truncated (Nat.succ_pos n) hn hu) rfl h0 hP hg₁
  have hun : (m.cut m.running (n + 1) us).unguarded n us = m.unguarded n us :=
    congrArg (fun m' : Machine => m'.modifyTop m.running _)
      (m.cut_cut m.running us us (Nat.le_refl _))
  rw [recover_cut re e hm.there he] at hr
  cases hd : recover re n e m with
  | done site m' | raised e' m' => rwa [hd] at hr
  | exhausted =>
    rw [hd] at hr
    obtain ⟨h, hh, hc⟩ := hr
    exact ⟨h, hh, hun ▸ hc⟩

theorem recover_plain (hh : handler = none) (hc : P.captured = []) :
    recover re n e m = .done P.site ((m.cut t n us).modifyTop t
      (·.pushAll (adjust [.bool false, e.toValue] P.wanted))) := by
  subst ht hh
  have hP₁ : ((m.cut m.running (n + 1) us).threadAt m.running).frames[n]? = some P := by
    rw [threadAt_cut_there hm.there, getElem?_take, if_pos (Nat.lt_succ_self n), hP]
  have hr := recover_plainTop re e (hm.truncated (Nat.succ_pos n) hn hu) rfl h0 hP hP₁ hg hc
  have hcut : (m.cut m.running (n + 1) us).cut m.running n us = m.cut m.running n us :=
    m.cut_cut m.running us us (Nat.le_succ n)
  rw [recover_cut re e hm.there he] at hr
  refine hr.trans ?_
  change Outcome.done P.site (((m.cut m.running (n + 1) us).cut m.running n us).modifyTop m.running _) = _
  rw [hcut]

end Recover

theorem Point.machine_start (m : Machine) (site : Option CallSite) :
    (Point.start m site).machine = m := by
  cases site <;> rfl

theorem Machine.Enters.stays {honest : Prop} {site : Option CallSite} (hm : m.Enters stop site)
    (hp : honest → m.thread.pending = none) :
    (Point.start m site).Stays honest m.running stop m.thread.counts := by
  have hs := hm.positive
  have hx : 0 < m.frameCount → Landed honest m.running m.frameCount m.thread.counts m False m :=
    fun h0 => ⟨.refl .., hm.there, h0, rfl, hm.parked, hm.status, rfl,
      fun hh => ⟨rfl, False.elim, .inl (hp hh)⟩⟩
  cases site with
  | none =>
    have ha : stop < m.frameCount := hm.above
    exact ⟨rfl, ha, hx (by omega)⟩
  | some site =>
    have ha : stop ≤ m.frameCount := hm.above
    exact ⟨rfl, ha, hx (by omega)⟩

theorem enter_enters {honest : Prop} (hre : re.Shelters honest m.running) {nargs : Nat}
    {wanted : Int} {site : CallSite} {m' : Machine} (h0 : 0 < m.frameCount)
    (hth : m.running.index < m.threads.size) (hp : m.thread.parked = false)
    (hs : m.thread.status ≠ .yield) (ho : honest → m.thread.pending = none)
    (he : enter re nargs wanted site m = .done true m') :
    m'.Enters m.frameCount none ∧ m'.running = m.running ∧ m'.thread.counts = m.thread.counts ∧
      (honest → m'.thread.pending = none) := by
  have hb := begun_enter hre nargs wanted site (t := m.running) (n := m.frameCount)
    (c := m.thread.counts) ⟨.refl .., hth, h0, rfl, hp, hs, rfl,
      fun hh => ⟨rfl, False.elim, .inl (ho hh)⟩⟩ rfl
  rw [he] at hb
  obtain ⟨hr, o, -, -, ha⟩ := hb
  have hl := ha.ready hr
  rw [← hr] at hl
  exact ⟨⟨h0, hl.there, hl.parked, hl.status, ha.kept.lt_frameCount hr⟩, hr, hl.counts,
    fun hh => (hl.calm hh).3.resolve_right id⟩

/-- The frame on top when the call that a yield has left open is over: the upper `nargs` values are
its results, and what is below them goes away down to where the call has begun. -/
def Frame.continued (nargs : Nat) (call : PendingCall) (f : Frame) : Frame :=
  ((f.drop nargs).setTop call.base).pushAll (adjust (f.topValues nargs) call.wanted)

theorem continueCall_eq (re : Reentry) (nargs : Nat) {call : PendingCall}
    (hc : m.thread.pending = some call) : continueCall re nargs m =
      re.dispatch 1 (some call.site) (m.callClosed.modifyTop m.running (·.continued nargs call)) := by
  have hm : ((m.callClosed.modifyTop m.running (·.drop nargs)).modifyTop m.running
      (·.setTop call.base)).modifyTop m.running
        (·.pushAll (adjust (m.callClosed.frame.topValues nargs) call.wanted)) =
      m.callClosed.modifyTop m.running (·.continued nargs call) := by
    rw [modifyTop_modifyTop, modifyTop_modifyTop]
    exact modifyTop_congr rfl
  rw [continueCall, run_bind, run_readThread, Outcome.andThen_done, hc, ← hm]
  rfl

theorem continueCall_enters (re : Reentry) (nargs : Nat) {call : PendingCall}
    (h0 : 0 < m.frameCount) (hth : m.running.index < m.threads.size)
    (hp : m.thread.parked = false) (hs : m.thread.status ≠ .yield)
    (hc : m.thread.pending = some call) :
    ∃ m', continueCall re nargs m = re.dispatch 1 (some call.site) m' ∧ m'.Enters 1 (some call.site) ∧
      m'.running = m.running ∧ m'.thread.counts = m.thread.counts ∧
      Intact m.running (m.frameCount - 1) m m' ∧ m'.thread.pending = none := by
  have hc₁ : m.callClosed.thread = { m.thread with pending := none } :=
    m.threadAt_modify_there hth fun th => { th with pending := none }
  have hf₁ : (m.callClosed.threadAt m.running).frames = (m.threadAt m.running).frames :=
    (congrArg Thread.frames hc₁ : m.callClosed.thread.frames = _)
  have hs₁ : m.callClosed.frameCount = m.frameCount := congrArg Array.size hf₁
  have hl : Landed False m.running m.frameCount m.thread.counts m.callClosed False m.callClosed := by
    refine ⟨.refl .., Nat.lt_of_lt_of_eq hth (Array.size_modify ..).symm, h0, hs₁, ?_, ?_, ?_,
      False.elim⟩
    · exact (congrArg Thread.parked hc₁).trans hp
    · exact fun h => hs ((congrArg Thread.status hc₁).symm.trans h)
    · exact (congrArg Thread.counts hc₁ : m.callClosed.thread.counts = _)
  have ht := hl.top (·.continued nargs call)
  refine ⟨_, continueCall_eq re nargs hc, ⟨Nat.one_pos, ht.there, ht.parked, ht.status, ?_⟩, rfl,
    ht.counts, ?_, ?_⟩
  · exact (ht.size.symm ▸ h0 : 0 < ((m.callClosed.modifyTop m.running
      (·.continued nargs call)).threadAt m.running).frames.size)
  · refine (intact_of_frames hf₁ rfl rfl).trans (intact_modifyTop ?_ (·.continued nargs call))
    rw [hf₁]
    exact Nat.sub_lt h0 Nat.one_pos
  · have hp := fields_modify Thread.pending m.callClosed m.running m.running
      (g := fun th => { th with
        frames := modifyFrames (th.frames.size - 1) (·.continued nargs call) th.frames }) fun _ => rfl
    exact hp.trans (congrArg Thread.pending hc₁)

structure Host.UnwindsErrors (host : Host) : Prop where
  walk : ∀ {fuel stop : Nat} {site : Option CallSite} {m₀ : Machine}, m₀.Enters stop site →
    host.dispatch (fuel + 1) stop site m₀ ≠ .exhausted →
    ∃ q, ReflTransGen (Point.Moves (host.reentry fuel) stop) (.start m₀ site) q ∧
      q.result? stop = some (host.dispatch (fuel + 1) stop site m₀)
  called : ∀ {fuel nargs : Nat} {wanted : Int} {site : CallSite} {m m' : Machine},
    0 < m.frameCount → m.running.index < m.threads.size → m.thread.parked = false →
    m.thread.status ≠ .yield → enter (host.reentry fuel) nargs wanted site m = .done true m' →
    m'.Enters m.frameCount none ∧ m'.running = m.running ∧ m'.thread.counts = m.thread.counts
  resumed : ∀ {fuel nargs : Nat} {call : PendingCall} {m : Machine},
    0 < m.frameCount → m.running.index < m.threads.size → m.thread.parked = false →
    m.thread.status ≠ .yield → m.thread.pending = some call →
    ∃ m', continueCall (host.reentry fuel) nargs m = host.dispatch fuel 1 (some call.site) m' ∧
      m'.Enters 1 (some call.site) ∧ m'.running = m.running ∧ m'.thread.counts = m.thread.counts ∧
      Intact m.running (m.frameCount - 1) m m'
  counts : ∀ {fuel stop : Nat} {site : Option CallSite} {m₀ : Machine} {p : Point},
    m₀.Enters stop site →
    ReflTransGen (Point.Moves (host.reentry fuel) stop) (.start m₀ site) p →
    p.machine.running = m₀.running ∧ p.machine.thread.counts = m₀.thread.counts
  /-- The boundary of an error is the innermost guarded frame that is not below the loop. -/
  boundary : ∀ {stop n : Nat} {m : Machine}, m.guardedLevel? stop = some n ↔
    stop ≤ n ∧ m.isGuarded n = true ∧ ∀ i, n < i → m.isGuarded i = false
  unguarded : ∀ {stop : Nat} {m : Machine}, m.guardedLevel? stop = none ↔
    ∀ i, stop ≤ i → m.isGuarded i = false
  /-- The boundary ends with results for its call site. The frames below are intact since any point
  of the loop from which on it has been above them, and the counts are those from the start. -/
  caught : ∀ {fuel stop n : Nat} {site : Option CallSite} {m₀ m : Machine} {p : Point} {e : Error},
    m₀.Enters stop site →
    ReflTransGen (Point.Moves (host.reentry fuel) stop) (.start m₀ site) p →
    ReflTransGen (Point.Climbs (host.reentry fuel) n stop) p (.failing e m) →
    e ≠ .yield → m.guardedLevel? stop = some n →
    (Point.failing e m).next? (host.reentry fuel) stop =
        ((some <$> recover (host.reentry fuel) n e) m).point? ∧
      ∃ P handler us, m.thread.frames[n]? = some P ∧ P.guard = some { handler } ∧
        truncateFrames (n + 1) m = .done () (m.cut m.running (n + 1) us) ∧
        (recover (host.reentry fuel) n e m).Unwinds m₀.running n m₀.thread.counts
          (host.reentry fuel) handler e us P p.machine m
  /-- The frames above the boundary go first. Their upvalues are closed with what has been in the
  registers last, and no captured variable changes its value. -/
  closed : ∀ {fuel stop n : Nat} {site : Option CallSite} {m₀ m m' : Machine} {e : Error},
    m₀.Enters stop site → m₀.Captures →
    ReflTransGen (Point.Moves (host.reentry fuel) stop) (.start m₀ site) (.failing e m) →
    n < m.frameCount → truncateFrames (n + 1) m = .done () m' →
    m'.frameCount = n + 1 ∧ m.Closes m.running (n + 1) m'.upvalues ∧ m.Retains m' ∧ m'.Captures
  plain : ∀ {fuel stop n : Nat} {site : Option CallSite} {m₀ m : Machine} {e : Error} {P : Frame}
      {us : Array Upvalue},
    m₀.Enters stop site → m₀.BytecodeCaptures →
    ReflTransGen (Point.Moves (host.reentry fuel) stop) (.start m₀ site) (.failing e m) →
    e ≠ .yield → m.guardedLevel? stop = some n → m.thread.frames[n]? = some P →
    P.guard = some { handler := none } → ¬m.RunsBytecode P →
    truncateFrames (n + 1) m = .done () (m.cut m.running (n + 1) us) →
    recover (host.reentry fuel) n e m = .done P.site ((m.cut m.running n us).modifyTop m.running
      (·.pushAll (adjust [.bool false, e.toValue] P.wanted)))
  uncaught : ∀ {fuel stop : Nat} {site : Option CallSite} {m₀ m : Machine} {e : Error},
    m₀.Enters stop site →
    ReflTransGen (Point.Moves (host.reentry fuel) stop) (.start m₀ site) (.failing e m) →
    e = .yield ∨ m.guardedLevel? stop = none →
    host.dispatch (fuel + 1) stop site m₀ ≠ .exhausted →
    host.dispatch (fuel + 1) stop site m₀ = .raised e m

/-- An error gets to the innermost boundary, and everything below it is what it has been. -/
theorem Host.unwindsErrors (host : Host) : host.UnwindsErrors := by
  have shelters (fuel : Nat) (t : ThreadId) : (host.reentry fuel).Shelters False t :=
    host.shelters False.elim t fuel
  have stays {fuel stop : Nat} {site : Option CallSite} {m₀ : Machine} {p : Point}
      (hm : m₀.Enters stop site)
      (hw : ReflTransGen (Point.Moves (host.reentry fuel) stop) (.start m₀ site) p) :
      p.Stays False m₀.running stop m₀.thread.counts :=
    (hm.stays False.elim).walk (shelters fuel _) hm.positive hw
  constructor
  case walk => exact fun hm hx => dispatch_walk hm.positive hx
  case called =>
    intro fuel nargs wanted site m m' h0 hth hp hs he
    obtain ⟨hE, hr, hc, -⟩ := enter_enters (shelters fuel _) h0 hth hp hs False.elim he
    exact ⟨hE, hr, hc⟩
  case resumed =>
    intro fuel nargs call m h0 hth hp hs hc
    obtain ⟨m', he, hE, hr, hc, hi, -⟩ := continueCall_enters (host.reentry fuel) nargs h0 hth hp hs hc
    exact ⟨m', he, hE, hr, hc, hi⟩
  case counts =>
    intro fuel stop site m₀ p hm hw
    have hp := stays hm hw
    obtain ⟨y, hl⟩ := hp.standing
    exact ⟨hp.running, by rw [Machine.thread, hp.running]; exact hl.counts⟩
  case boundary => exact guardedLevel?_eq_some
  case unguarded => exact guardedLevel?_eq_none
  case caught =>
    intro fuel stop n site m₀ m p e hm hw hc he hl
    have hp := stays hm hw
    have hq := stays hm (hw.trans (Point.walk_of_climbs hc))
    obtain ⟨hs, hg, -⟩ := guardedLevel?_eq_some.mp hl
    obtain ⟨P, handler, hP, hg⟩ := exists_guard hg
    obtain ⟨us, hu, htr⟩ := run_truncateFrames (n + 1) m
    have hi := hp.intact (shelters fuel _) hm.positive hc fun level hl' => by
      rw [hl] at hl'
      exact Nat.le_of_eq (Option.some.inj hl')
    refine ⟨by rw [Point.next?, if_neg he, hl, Option.bind_some], P, handler, us, hP, hg, htr, ?_⟩
    refine Outcome.Unwinds.trans hi ?_
    obtain ⟨hr, -, hx⟩ := hq
    have hn := (guardedLevel?_bounds hl).2.1
    rw [Machine.thread, hr] at hP
    exact recover_unwinds (hx.congr (by simp [Error.isYield_of_ne he])) hr
      (Nat.lt_of_lt_of_le hm.positive hs) hn hP hg hu htr (shelters fuel _)
  case closed =>
    intro fuel stop n site m₀ m m' e hm hcap hw hn he
    obtain ⟨hr, -, hx⟩ := stays hm hw
    have hth : m.running.index < m.threads.size := hr ▸ hx.there
    have hist : Condition.Since m₀ m.running false m :=
      Point.walk_keeps (K := Condition.Since m₀) host hw (by rw [Point.machine_start]; exact ⟨[], .start⟩)
    have hc := hist.choose_spec.captures hcap
    obtain ⟨m₁, he₁, hc₁, hret⟩ := truncateFrames_retains (n + 1) hc
    obtain ⟨us, hu, he₂⟩ := run_truncateFrames (n + 1) m
    have hcl := truncateFrames_closes (n + 1) hc hth hn he
    rw [he] at he₁ he₂
    cases he₁
    cases he₂
    refine ⟨?_, hcl, hret, hc₁⟩
    change ((m.cut m.running (n + 1) us).threadAt m.running).frames.size = n + 1
    rw [threadAt_cut_there hth, size_take]
    exact Nat.min_eq_left hn
  case plain =>
    intro fuel stop n site m₀ m e P us hm hcap hw he hl hP hg hb htr
    obtain ⟨hr, -, hx⟩ := stays hm hw
    obtain ⟨hs, hn, -⟩ := guardedLevel?_bounds hl
    have hlex : m.BytecodeCaptures :=
      Point.walk_keeps (K := Condition.Lexical) host hw ((Point.machine_start m₀ site).symm ▸ hcap)
    have hc : P.captured = [] := Classical.byContradiction fun hc => hb (hlex _ _ _ hP hc)
    obtain ⟨us', hu, htr'⟩ := run_truncateFrames (n + 1) m
    rw [htr] at htr'
    have hus : us = us' := congrArg Machine.upvalues (Outcome.done.inj htr').2
    subst hus
    rw [← hr] at hx
    exact recover_plain (hx.congr (by simp [Error.isYield_of_ne he])) rfl
      (Nat.lt_of_lt_of_le hm.positive hs) hn hP hg hu htr rfl hc
  case uncaught =>
    intro fuel stop site m₀ m e hm hw hl hx
    exact Point.dispatch_result hm.positive hw (if_pos hl) hx

def Machine.shielded : Machine :=
  { Machine.new {} with
    functions := #[
      { body := .bytecode { registers := 1 } },
      { body := .native (.builtin .pcall) },
      { body := .bytecode {
          registers := 2
          children := #[{ captures := [.register 0] }]
          code := #[.ofABx .closure 1 0, .ofABC .extraArg 0 0 0] } }]
    threads := #[{ isMain := true, parked := false, phase := .running, nesting := 3, frames := #[{},
      { window := #[.int 5], top := 1, function := some ⟨0⟩, pc := 4 },
      { function := some ⟨1⟩, site := .call 0 0, wanted := -1, guard := some { handler := none } },
      { window := #[.int 7, .nil], top := 2, function := some ⟨2⟩, site := .guarded,
        wanted := -1 }] }] }

/-- The caller has its register, false and the error; the variable of the closure is kept. -/
theorem Host.unwindsErrors_shielded : ∃ e m m',
    ReflTransGen (Point.Moves (({} : Host).reentry 1) 1) (.start Machine.shielded none)
      (.failing e m) ∧
    (Point.failing e m).next? (({} : Host).reentry 1) 1 = some (.delivering (.call 0 0) m') ∧
    m.thread.counts = ⟨0, 3⟩ ∧ m'.frame.values = [.int 5, .bool false, e.toValue] ∧
    m'.frame.pc = 4 ∧ m'.upvalues[0]? = some (.closed (.int 7)) := by
  have hu := ({} : Host).unwindsErrors
  have hm : Machine.shielded.Enters 1 none := ⟨by decide, by decide, rfl, by decide, by decide⟩
  have hcap : Machine.shielded.Captures := .of_empty rfl fun t => by
    match t with
    | ⟨0⟩ | ⟨_ + 1⟩ => rfl
  have hbyte : Machine.shielded.BytecodeCaptures := by
    intro t i f hf hc
    match t, i with
    | ⟨0⟩, 0 | ⟨0⟩, 1 | ⟨0⟩, 2 | ⟨0⟩, 3 | ⟨_ + 1⟩, 0 =>
      cases hf
      exact absurd rfl hc
    | ⟨0⟩, _ + 4 | ⟨_ + 1⟩, _ + 1 => cases hf
  obtain ⟨m₁, e, m, P, h₁, h₂, he, hl, hP, hg, hfun, hs, hA, hr, hv, ht⟩ : ∃ m₁ e m P,
      Point.Moves (({} : Host).reentry 1) 1 (.running Machine.shielded) (.running m₁) ∧
      Point.Moves (({} : Host).reentry 1) 1 (.running m₁) (.failing e m) ∧ e ≠ .yield ∧
      m.guardedLevel? 1 = some 2 ∧ m.thread.frames[2]? = some P ∧
      P = { function := some ⟨1⟩, site := .call 0 0, wanted := -1, guard := some { handler := none } } ∧
      m.functions[1]? = some { body := .native (.builtin .pcall) } ∧ m.frameCount = 4 ∧
      m.thread.frames[1]? = some { window := #[.int 5], top := 1, function := some ⟨0⟩, pc := 4 } ∧
      m.Registered ⟨0⟩ ⟨mainThread, 3, 0⟩ ∧ m.registerValue ⟨mainThread, 3, 0⟩ = .int 7 ∧
      m.running = mainThread :=
    ⟨_, _, _, _, rfl, rfl, by decide, rfl, rfl, rfl, rfl, rfl, rfl, List.mem_cons_self, rfl, rfl⟩
  have hb : ¬m.RunsBytecode P := by
    rintro ⟨_, _, _, hf, hp⟩
    rw [hg] at hf
    cases hf
    cases hfun.symm.trans hp
  have hw := (ReflTransGen.single h₁).tail h₂
  obtain ⟨hnext, _, _, us, -, -, htr, -⟩ := hu.caught hm hw .refl he hl
  obtain ⟨-, hcl, -⟩ := hu.closed hm hcap hw (by rw [hs]; decide) htr
  have hrec := hu.plain hm hbyte hw he hl hP (by rw [hg]) hb htr
  have hone : 1 < (m.threadAt m.running).frames.size := by
    change 1 < m.frameCount
    rw [hs]
    decide
  have hcut : 1 < ((m.cut m.running 2 us).threadAt m.running).frames.size := by
    rw [size_cut hone]
    change 1 < min 2 m.frameCount
    rw [hs]
    decide
  have htop : (m.cut m.running 2 us).frameAt m.running = _ := frameAt_cut hone hone
  rw [show (m.threadAt m.running).frames[1]? = _ from hA, Option.getD_some] at htop
  have hframe := frameAt_modifyTop_self hcut
    (·.pushAll (adjust [.bool false, e.toValue] P.wanted))
  rw [htop, hg] at hframe
  refine ⟨e, m, _, hw, ?_, (hu.counts hm hw).2.trans rfl, congrArg Frame.values hframe,
    congrArg Frame.pc hframe, (hcl.closed ⟨0⟩ _ hr ht.symm (by decide)).trans (by rw [hv])⟩
  rw [hnext, ← bind_pure_comp, run_bind, hrec, hg]
  rfl

/-- The host has made a protected call on the stack of a coroutine that has yielded. The callee lets a
native function resume the coroutine, and then it fails. -/
def Machine.stirring : Machine :=
  { Machine.new {} with
    functions := #[
      { body := .native (.builtin .pcall) },
      { body := .bytecode {
          parameters := 1
          registers := 1
          code := #[.ofABC .call 0 1 1, .ofABC .extraArg 0 0 0] } },
      { body := .native (.script 0) }]
    threads := #[{ isMain := true, parked := false, phase := .running },
      { parked := false, status := .yield, pending := some { site := .host, wanted := -1, base := 0 },
        hostCalls := 1, nesting := 1, frames := #[{},
          { function := some ⟨0⟩, wanted := -1, guard := some { handler := none } },
          { window := #[.function ⟨2⟩], top := 1, function := some ⟨1⟩, site := .guarded,
            wanted := -1 }] }]
    running := ⟨1⟩ }

def Host.stirrer : Host :=
  { scripts := #[[.perform (.call (.resumeRunning 0))]] }

/-- The resume has forgotten that the host is waiting, and to catch the error does not bring it back. -/
theorem Machine.stirring_lowered : Machine.stirring.thread.hostCalls = 1 ∧ ∃ e m m',
    ReflTransGen (Point.Moves (Host.stirrer.reentry 4) 1) (.start Machine.stirring none)
      (.failing e m) ∧
    e ≠ .yield ∧ m.guardedLevel? 1 = some 1 ∧
    (Point.failing e m).next? (Host.stirrer.reentry 4) 1 = some (.delivering .host m') ∧
    m'.thread.hostCalls = 0 := by
  obtain ⟨m₁, e, m, m', hcall, hfail, h⟩ : ∃ m₁ e m m',
      Point.Moves (Host.stirrer.reentry 4) 1 (.running Machine.stirring) (.running m₁) ∧
      Point.Moves (Host.stirrer.reentry 4) 1 (.running m₁) (.failing e m) ∧
      e ≠ .yield ∧ m.guardedLevel? 1 = some 1 ∧
      (Point.failing e m).next? (Host.stirrer.reentry 4) 1 = some (.delivering .host m') ∧
      m'.thread.hostCalls = 0 :=
    ⟨_, _, _, _, rfl, rfl, by decide, rfl, rfl, rfl⟩
  exact ⟨rfl, e, m, m', (ReflTransGen.single hcall).tail hfail, h⟩

end LuaMachine
