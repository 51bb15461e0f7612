import LuaMachine.Proofs.Limits.Depth

/-!
Calls of the host are a barrier to yields. The calls in progress are counted from their start to their
end, also if they fail, and below one of them a yield is an ordinary error. A resume begins to count
anew. So the thread must not be in such a call already, which is what a thread that is taken up without
being resumed can bring about.
-/

namespace LuaMachine

open Machine Exec Relation

/-- A call is open in a thread if and only if it has yielded. -/
def Thread.Settled (th : Thread) : Prop := th.status = .yield ↔ th.pending.isSome = true

instance (th : Thread) : Decidable th.Settled :=
  inferInstanceAs (Decidable (th.status = .yield ↔ th.pending.isSome = true))

/-- What has been run in a thread that is not resting has left no call open, unless it has yielded. -/
def Outcome.Leaves (t : ThreadId) : Outcome Unit → Prop
  | .done _ m => m.running = t ∧ t.index < m.threads.size ∧ m.thread.status ≠ .yield ∧
      m.thread.pending = none
  | .raised e m => m.running = t ∧ t.index < m.threads.size ∧
      (e = .yield → m.thread.pending.isSome = true)
  | .exhausted => True

structure Host.BlocksYields (host : Host) : Prop where
  refused : ∀ {k : Nat} {m : Machine}, m.inMainThread = true ∨ 0 < m.thread.hostCalls →
    ∃ v, yieldError k m = .done (.thrown v) m ∧ (Error.thrown v).status = .runtimeError
  granted : ∀ {k : Nat} {m : Machine}, m.inMainThread = false → m.thread.hostCalls = 0 →
    yieldError k m = .done .yield (handOver (m.modifyTop m.running (·.drop k)) (m.frame.topValues k))
  native : ∀ {fuel : Nat} {f : Native} {m : Machine} {t : ThreadId}, 1 < (m.threadAt t).frames.size →
    (m.threadAt t).parked = false → (m.threadAt t).status ≠ .yield →
    (host.invoke fuel f m).Ends
      (fun _ _ m' => (m'.threadAt t).counts = (m.threadAt t).counts) m.running
  loop : ∀ {fuel stop : Nat} {site : Option CallSite} {m₀ : Machine} {p : Point},
    m₀.Enters stop site →
    ReflTransGen (Point.Moves (host.reentry fuel) stop) (.start m₀ site) p →
    p.machine.running = m₀.running ∧ p.machine.thread.hostCalls = m₀.thread.hostCalls
  /-- A call of the host counts as one more, a metamethod that an instruction calls does not. -/
  called : ∀ {fuel nargs : Nat} {wanted : Int} {site : CallSite} {waits : Bool} {m m₁ : Machine}
      {p : Point}, m.Awake →
    enter (host.reentry fuel) nargs wanted site (m.deeper waits) = .done true m₁ →
    ReflTransGen (Point.Moves (host.reentry fuel) m.frameCount) (.running m₁) p →
    p.machine.running = m.running ∧
      p.machine.thread.hostCalls = m.thread.hostCalls + if waits then 1 else 0
  barred : host.Honest → ∀ {fuel stop : Nat} {site : Option CallSite} {m₀ m : Machine} {e : Error},
    m₀.Enters stop site → m₀.thread.pending = none → 0 < m₀.thread.hostCalls →
    ReflTransGen (Point.Moves (host.reentry fuel) stop) (.start m₀ site) (.failing e m) →
    e ≠ .yield
  /-- A call of the host ends with the counts that it has begun with. It passes on no yield and leaves
  no call open. -/
  crossed : host.Honest → ∀ {fuel nargs : Nat} {wanted : Int} {m : Machine}, m.Awake →
    m.thread.pending = none → (call (host.reentry fuel) nargs wanted m).Restores m ∧
      match call (host.reentry fuel) nargs wanted m with
      | .done _ m' => m'.thread.status ≠ .yield ∧ m'.thread.pending = none
      | .raised e m' => e ≠ .yield ∧ m'.thread.status ≠ .yield ∧ m'.thread.pending = none
      | .exhausted => True
  contained : host.Honest → ∀ {fuel nargs : Nat} {wanted index : Int} {m : Machine},
    m.Prepared nargs → m.thread.pending = none →
    (Exec.pcall (host.reentry fuel) nargs wanted index m).Restores m ∧
      match Exec.pcall (host.reentry fuel) nargs wanted index m with
      | .done status _ => status ≠ .yield
      | .raised _ _ => False
      | .exhausted => True
  resumed : ∀ {source : Option ThreadId} {m : Machine}, m.running.index < m.threads.size →
    (m.resumed source).running = m.running ∧ (m.resumed source).thread.hostCalls = 0 ∧
      (m.resumed source).thread.status = .ok
  /-- After a resume a call is open if and only if the thread has yielded. -/
  settled : host.Honest → ∀ {fuel nargs : Nat} {source : Option ThreadId} {m m' : Machine}
      {status : Status} {n : Nat},
    m.running.index < m.threads.size → m.thread.parked = false → 0 < m.frameCount →
    m.thread.Settled → m.Resumable source nargs →
    resume (host.reentry fuel) source nargs m = .done (status, n) m' →
    m'.running = m.running ∧ (status = .yield ↔ m'.thread.status = .yield) ∧ m'.thread.Settled
  kept : ∀ {fuel nargs : Nat} {source : Option ThreadId} {m : Machine}, ¬m.Resumable source nargs →
    ∃ m', resume (host.reentry fuel) source nargs m = .done (.runtimeError, 1) m' ∧
      m'.running = m.running ∧ m'.thread.status = m.thread.status ∧
      m'.thread.pending = m.thread.pending ∧ m'.thread.hostCalls = m.thread.hostCalls

section Settled

variable {host : Host} {fuel stop nargs : Nat} {site : Option CallSite} {m m₀ m₁ : Machine}
  {source : Option ThreadId} {p : Point} {e : Error}

theorem Host.walk_yields (hh : host.Honest) (hm : m₀.Enters stop site)
    (hp : m₀.thread.pending = none)
    (hw : ReflTransGen (Point.Moves (host.reentry fuel) stop) (.start m₀ site) (.failing .yield m)) :
    m.thread.pending.isSome = true ∧ m₀.thread.hostCalls = 0 := by
  have hre := host.shelters (fun _ : True => hh) m₀.running fuel
  have hx := hm.stays fun _ : True => hp
  rcases ReflTransGen.cases_tail hw with he | ⟨q, hw, hq⟩
  · cases site <;> cases he
  · obtain ⟨k, o, -, -, hr, hpoised⟩ := (hx.walk hre hm.positive hw).atop hre hm.positive hq
    have hc := hpoised.kept.kept.calm trivial
    refine ⟨?_, hc.2 ⟨rfl, rfl⟩⟩
    rw [Machine.thread, hr]
    exact (hpoised.mark trivial ⟨rfl, rfl⟩).isSome

theorem Host.dispatch_leaves (hh : host.Honest) (hm : m₀.Enters stop site)
    (hp : m₀.thread.pending = none) :
    (host.dispatch fuel stop site m₀).Leaves m₀.running := by
  cases fuel with
  | zero => trivial
  | succ fuel =>
    by_cases hx : host.dispatch (fuel + 1) stop site m₀ = .exhausted
    · rw [hx]
      trivial
    obtain ⟨q, hw, hq⟩ := dispatch_walk hm.positive hx
    have hs := (hm.stays fun _ : True => hp).walk (host.shelters (fun _ => hh) _ fuel) hm.positive hw
    cases q with
    | running m => cases hq
    | delivering site m =>
      obtain ⟨hr, -, hl⟩ := hs
      rw [Point.result?] at hq
      split at hq
      · rw [show host.dispatch (fuel + 1) stop _ m₀ = .done () m from (Option.some.inj hq).symm, ← hr]
        rw [← hr] at hl
        exact ⟨rfl, hl.there, hl.status, (hl.calm trivial).3.resolve_right id⟩
      · cases hq
    | failing e m =>
      obtain ⟨hr, -, hl⟩ := hs
      rw [Point.result?] at hq
      split at hq
      · rw [show host.dispatch (fuel + 1) stop site m₀ = .raised e m from (Option.some.inj hq).symm]
        refine ⟨hr, hl.there, fun he => ?_⟩
        subst he
        exact (walk_yields hh hm hp hw).1
      · cases hq

theorem Host.startBody_leaves (hh : host.Honest) (hm : m.Awake) (hn : m.frameCount = 1)
    (hp : m.thread.pending = none) :
    (startBody (host.reentry fuel) nargs m).Leaves m.running := by
  have hre := host.shelters (fun _ : True => hh) m.running fuel
  have hl : Landed True m.running 1 m.thread.counts m False m :=
    ⟨.refl .., hm.there, Nat.one_pos, hn, hm.parked, hm.status, rfl,
      fun _ => ⟨rfl, False.elim, .inl hp⟩⟩
  have hc := called_enterAndRun hre nargs (-1) .host hl rfl
  have he : startBody (host.reentry fuel) nargs m =
      enterAndRun (host.reentry fuel) nargs (-1) .host m := by
    rw [enterAndRun, run_bind, run_frameCount, Outcome.andThen_done, hn]
    rfl
  rw [he]
  cases hx : enterAndRun (host.reentry fuel) nargs (-1) .host m with
  | done a m' =>
    rw [hx] at hc
    obtain ⟨hr, vs, hf⟩ := hc
    have hl := hf.handed.standing
    rw [← hr] at hl ⊢
    exact ⟨rfl, hl.there, hl.status, (hl.calm trivial).3.resolve_right id⟩
  | raised e m' =>
    rw [hx] at hc
    obtain ⟨hr, hd | ⟨o, -, -, ha⟩⟩ := hc
    · refine ⟨hr, hd.landed.there, fun he => ?_⟩
      rw [Machine.thread, hr, hd.pending trivial he, Option.isSome_some]
    · refine ⟨hr, ha.kept.kept.index_lt, fun he => ?_⟩
      subst he
      rw [Machine.thread, hr]
      exact (ha.mark trivial ⟨rfl, rfl⟩).isSome
  | exhausted => trivial

theorem Host.continueCall_leaves (hh : host.Honest) (hm : m.Awake)
    (hp : m.thread.pending.isSome = true) :
    (continueCall (host.reentry fuel) nargs m).Leaves m.running := by
  obtain ⟨call, hcall⟩ := Option.isSome_iff_exists.mp hp
  obtain ⟨m', he, hE, hr, -, -, hn⟩ := continueCall_enters (host.reentry fuel) nargs hm.positive
    hm.there hm.parked hm.status hcall
  rw [he, ← hr]
  exact dispatch_leaves hh hE hn

theorem Exec.endResume_settles (result : Except Error Unit) {self : ThreadId} {status : Status}
    {n : Nat} {named : Bool} (hm : m.running.index < m.threads.size)
    (hx : match result with
      | .ok () => m.thread.status ≠ .yield ∧ m.thread.pending = none
      | .error e => e = .yield → m.thread.pending.isSome = true)
    (he : endResume source self named result m = .done (status, n) m₁) :
    m₁.running = m.running ∧ (status = .yield ↔ m₁.thread.status = .yield) ∧
      m₁.thread.Settled := by
  obtain ⟨k, us, g, hs, hg⟩ := run_settleResume result m
  rw [run_endResume hs] at he
  cases he
  have hr : ((m.ending us g).released source self named (settledPhase result)).running = m.running :=
    running_released ..
  have hst := (m.ending us g).fields_released Thread.status source self named (settledPhase result)
    m.running fun _ _ => rfl
  have hpe := (m.ending us g).fields_released Thread.pending source self named (settledPhase result)
    m.running fun _ _ => rfl
  have hth : (m.ending us g).threadAt m.running = g m.thread := thread_ending hm us g
  rw [hth, hg.status] at hst
  rw [hth, hg.pending] at hpe
  rw [Thread.Settled, Machine.thread, hr, hst, hpe]
  cases result with
  | ok a =>
    obtain ⟨hst, hpe⟩ := hx
    have hno : (settledStatus (.ok a) = .yield ↔ m.thread.status = .yield) :=
      ⟨nofun, fun h => absurd h hst⟩
    exact ⟨rfl, hno, ⟨fun h => absurd h hst, fun h => by rw [hpe] at h; cases h⟩⟩
  | error e =>
    refine ⟨rfl, .rfl, ?_⟩
    change e.status = .yield ↔
      (if e = .yield then m.thread.pending else none : Option PendingCall).isSome = true
    by_cases hy : e = .yield
    · rw [if_pos hy]
      exact ⟨fun _ => hx hy, fun _ => by rw [hy]; rfl⟩
    · rw [if_neg hy]
      exact ⟨fun h => absurd (Error.status_eq_yield h) hy, nofun⟩

theorem Machine.Resumable.settles (hh : host.Honest) {status : Status} {n : Nat}
    (hth : m.running.index < m.threads.size) (hp : m.thread.parked = false) (h0 : 0 < m.frameCount)
    (hset : m.thread.Settled) (hm : m.Resumable source nargs)
    (he : resume (host.reentry fuel) source nargs m = .done (status, n) m₁) :
    m₁.running = m.running ∧ (status = .yield ↔ m₁.thread.status = .yield) ∧
      m₁.thread.Settled := by
  obtain ⟨hr, -, hpa, hpe⟩ := m.thread_resumed source
  obtain ⟨hth', hst, -⟩ := there_resumed hth source
  have hn := m.frameCount_resumed source
  rw [hm.resume_eq] at he
  generalize m.resumed source = m' at hr hpa hpe hth' hst hn he
  have ha : m'.Awake := ⟨hth', hpa.trans hp, by rw [hst]; nofun, hn.symm ▸ h0⟩
  have hx : ((if m.thread.status == .yield then continueCall (host.reentry fuel) nargs
      else startBody (host.reentry fuel) nargs) m').Leaves m.running := by
    rw [← hr]
    by_cases hy : m.thread.status = .yield
    · rw [if_pos (beq_iff_eq.mpr hy)]
      exact Host.continueCall_leaves hh ha (by rw [hpe]; exact hset.mp hy)
    · rw [if_neg fun h => hy (beq_iff_eq.mp h)]
      have hc := (hm.ready.resolve_left hy).1
      exact Host.startBody_leaves hh ha (by omega)
        (by rw [hpe]; exact Option.not_isSome_iff_eq_none.mp fun hs => hy (hset.mpr hs))
  cases hb : (if m.thread.status == .yield then continueCall (host.reentry fuel) nargs
      else startBody (host.reentry fuel) nargs) m' with
  | done a m₂ =>
    rw [hb] at hx
    obtain ⟨hr₂, hth₂, hst₂, hpe₂⟩ := hx
    rw [run_attempt_done hb] at he
    have hs := endResume_settles (.ok a) (m := { m₂ with held := (m.below source).held })
      (hr₂ ▸ hth₂) ⟨hst₂, hpe₂⟩ he
    exact ⟨hs.1.trans hr₂, hs.2⟩
  | raised e m₂ =>
    rw [hb] at hx
    obtain ⟨hr₂, hth₂, hpe₂⟩ := hx
    rw [run_attempt_raised hb] at he
    have hs := endResume_settles (.error e) (m := { m₂ with held := (m.below source).held })
      (hr₂ ▸ hth₂) hpe₂ he
    exact ⟨hs.1.trans hr₂, hs.2⟩
  | exhausted =>
    rw [run_attempt_exhausted hb] at he
    cases he

theorem Exec.resume_refused (re : Reentry) (hm : ¬m.Resumable source nargs) :
    ∃ reason, resume re source nargs m = refuse reason nargs m ∨
      resume re source nargs m = refuse reason nargs (m.below source) := by
  rw [resume_eq]
  by_cases hd : (m.isNamed m.running && m.thread.phase == .dead) = true
  · exact ⟨_, .inl (if_pos hd)⟩
  rw [if_neg hd]
  by_cases hn : m.thread.status ≠ .yield ∧ 1 < m.frameCount
  · exact ⟨_, .inl (if_pos hn)⟩
  rw [if_neg hn]
  by_cases ht : m.thread.status ≠ .yield ∧ m.frame.top < nargs + 1
  · exact ⟨_, .inl (if_pos ht)⟩
  rw [if_neg ht]
  by_cases hl : m.limits.nesting ≤ innerNesting m source
  · refine ⟨"C stack overflow", .inr ?_⟩
    rw [run_bind, run_modifyThread, Outcome.andThen_done, if_pos hl]
    rfl
  · refine absurd ⟨fun h => hd ?_, ?_, Nat.not_le.mp hl⟩ hm
    · rw [h.1, h.2]
      rfl
    · by_cases hs : m.thread.status = .yield
      · exact .inl hs
      · exact .inr ⟨Nat.not_lt.mp fun h => hn ⟨hs, h⟩, Nat.not_lt.mp fun h => ht ⟨hs, h⟩⟩

theorem Exec.fields_refuse {α : Type} (p : Thread → α) (reason : String) (nargs : Nat) (m : Machine)
    (t : ThreadId) (hp : ∀ th frames, p { th with frames } = p th) :
    ∃ m', refuse reason nargs m = .done (.runtimeError, 1) m' ∧ m'.running = m.running ∧
      p (m'.threadAt t) = p (m.threadAt t) :=
  ⟨_, rfl, rfl, (fields_modify p _ m.running t fun th => hp th _).trans
    (fields_modify p m m.running t fun th => hp th _)⟩

end Settled

/-- Yields do not get across the calls of the host that are counted. -/
theorem Host.blocksYields (host : Host) : host.BlocksYields := by
  constructor
  case refused =>
    intro k m h
    rw [yieldError_eq]
    by_cases hm : m.inMainThread = true
    · exact ⟨_, if_pos hm, rfl⟩
    · exact ⟨_, (if_neg hm).trans (if_pos (h.resolve_left hm)), rfl⟩
  case granted =>
    intro k m hm hc
    rw [yieldError_eq, hm, hc]
    rfl
  case native =>
    intro fuel f m t hn hp hs
    obtain ⟨n, hsize⟩ : ∃ n, (m.threadAt t).frames.size = n + 1 :=
      ⟨_, (Nat.sub_add_cancel (Nat.zero_lt_of_lt hn)).symm⟩
    have hl : Landed False t (n + 1) (m.threadAt t).counts m False m :=
      ⟨.refl .., m.index_lt hn, Nat.succ_pos n, hsize, hp, hs, rfl, False.elim⟩
    have ha := hl.aloft (by omega) (getElem?_top hsize)
    have hm : Aloft False t n (m.threadAt t).counts _ m m.running false m :=
      ⟨{ ha.kept with calm := False.elim }, ha.mark⟩
    exact (((host.shelters False.elim t fuel).invoke f _ _ _ _).ends m hm).imp fun _ _ hk => hk.mark
  case loop =>
    intro fuel stop site m₀ p hm hw
    obtain ⟨hr, hc⟩ := walk_counts hm hw
    exact ⟨hr, congrArg Counts.hostCalls hc⟩
  case called =>
    intro fuel nargs wanted site waits m m₁ p hm he hw
    have hx := hm.landed.deeper rfl waits
    have hn : (m.deeper waits).frameCount = m.frameCount := hx.size
    obtain ⟨hr, hc⟩ := entered_counts (hn ▸ hm.positive) hx.there hx.parked hx.status he hn.symm hw
    exact ⟨hr, congrArg Counts.hostCalls (hc.trans hx.counts)⟩
  case barred =>
    rintro hh fuel stop site m₀ m e hm hp hc hw rfl
    exact Nat.ne_of_gt hc (walk_yields hh hm hp hw).2
  case crossed =>
    intro hh fuel nargs wanted m hm hp
    refine ⟨hm.restored, ?_⟩
    have hl : Landed True m.running m.frameCount m.thread.counts m False m :=
      ⟨.refl .., hm.there, hm.positive, rfl, hm.parked, hm.status, rfl,
        fun _ => ⟨rfl, False.elim, .inl hp⟩⟩
    have standing : ∀ {m' : Machine}, m'.running = m.running →
        Landed True m.running m.frameCount m.thread.counts m' False m' →
        m'.thread.status ≠ .yield ∧ m'.thread.pending = none := fun hr hx => by
      rw [Machine.thread, hr]
      exact ⟨hx.status, (hx.calm trivial).3.resolve_right id⟩
    by_cases hc : m.thread.nesting < m.limits.nesting
    · have hx := hostCalled_call (host.shelters (fun _ => hh) _ fuel) nargs wanted hl rfl hc
      cases he : call (host.reentry fuel) nargs wanted m with
      | done a m' =>
        rw [he] at hx
        obtain ⟨hr, vs, hx⟩ := hx
        exact standing hr hx.handed.standing
      | raised e m' =>
        rw [he] at hx
        obtain ⟨hr, hy, hx⟩ := hx
        refine ⟨fun h => ?_, standing hr hx.refl⟩
        subst h
        cases hy trivial
      | exhausted => trivial
    · obtain ⟨m', he, hr, -, hx⟩ :=
        call_limited (host.reentry fuel) nargs wanted hl rfl (Nat.not_lt.mp hc)
      rw [he]
      exact ⟨nofun, standing hr hx.refl⟩
  case contained =>
    intro hh fuel nargs wanted index m hm hp
    refine ⟨hm.restored, ?_⟩
    have hre := host.shelters (fun _ : True => hh) m.running fuel
    obtain ⟨handler, hk⟩ := m.exists_handles index
    rw [pcall_eq _ _ _ _ hk]
    cases he : holding handler.toList (call (host.reentry fuel) nargs wanted) m with
    | done a m' => exact nofun
    | raised e m₁ =>
      have hy := (hm.failed hre (fun _ => hp) he).1 trivial
      obtain ⟨m₂, -, ⟨hd, -⟩ | ⟨status, v, m', hd, hs, -⟩⟩ :=
        hm.contained hre (fun _ => hp) he
      · dsimp only
        rw [hd]
        trivial
      · dsimp only
        rw [hd]
        exact hs.status_ne_yield hy
    | exhausted => trivial
  case resumed =>
    intro source m hth
    obtain ⟨-, hs, hc⟩ := there_resumed hth source
    exact ⟨(m.thread_resumed source).1, congrArg Counts.hostCalls hc, hs⟩
  case settled => exact fun hh _ _ _ _ _ _ _ hth hp h0 hset hm he => hm.settles hh hth hp h0 hset he
  case kept =>
    intro fuel nargs source m hm
    obtain ⟨reason, he⟩ := resume_refused (host.reentry fuel) hm
    have refused := fun m' : Machine => fields_refuse
      (fun th => (th.status, th.pending, th.hostCalls)) reason nargs m' m.running fun _ _ => rfl
    have hb := fields_modify (fun th => (th.status, th.pending, th.hostCalls)) m m.running m.running
      (g := fun th => { th with nesting := innerNesting m source }) fun _ => rfl
    obtain ⟨m', hx, hr, hf⟩ : ∃ m', resume (host.reentry fuel) source nargs m =
        .done (.runtimeError, 1) m' ∧ m'.running = m.running ∧
        ((m'.threadAt m.running).status, (m'.threadAt m.running).pending,
          (m'.threadAt m.running).hostCalls) =
        (m.thread.status, m.thread.pending, m.thread.hostCalls) := by
      rcases he with he | he
      · obtain ⟨m', hx, hr, hf⟩ := refused m
        exact ⟨m', he.trans hx, hr, hf⟩
      · obtain ⟨m', hx, hr, hf⟩ := refused (m.below source)
        exact ⟨m', he.trans hx, hr, hf.trans hb⟩
    simp only [Prod.mk.injEq] at hf
    exact ⟨m', hx, hr, by rw [Machine.thread, hr]; exact hf⟩

/-- A yield below a call of the host is an error in the coroutine that would yield. -/
theorem Host.blocksYields_eager : ∃ e m',
    call (({} : Host).reentry 1) 1 (-1) Machine.eager = .raised e m' ∧ e ≠ .yield ∧
    m'.thread.status ≠ .yield ∧ m'.thread.pending = none ∧ m'.thread.counts = ⟨0, 1⟩ := by
  have hm : Machine.eager.Awake := ⟨by decide, rfl, by decide, by decide⟩
  obtain ⟨e, m', he⟩ : ∃ e m', call (({} : Host).reentry 1) 1 (-1) Machine.eager = .raised e m' :=
    ⟨_, _, rfl⟩
  have hb : (call (({} : Host).reentry 1) 1 (-1) Machine.eager).Restores Machine.eager ∧ _ :=
    ({} : Host).blocksYields.crossed nofun hm rfl
  rw [he] at hb
  obtain ⟨hr, hy, hs, hp⟩ := hb
  exact ⟨e, m', he, hy, hs, hp, hr.counts⟩

/-- The stack of a coroutine that has yielded is at hand to the host, which is about to call a function
there. The function resumes the coroutine, and then it yields. -/
def Machine.dozing : Machine :=
  { Machine.new {} with
    functions := #[{ body := .native (.script 0) }]
    threads := #[{ isMain := true, parked := false, phase := .running },
      { parked := false, status := .yield, pending := some { site := .host, wanted := -1, base := 0 },
        frames := #[{ window := #[.function ⟨0⟩], top := 1 }] }]
    running := ⟨1⟩ }

def Host.restless : Host :=
  { scripts := #[[.perform (.call (.resumeRunning 0)), .perform (.call (.yield 0))]] }

/-- The resume has forgotten that the host is waiting: the yield gets across the call, and leaves one
open in a thread that has not yielded. -/
theorem Machine.dozing_crossed : Host.restless.Honest ∧ Machine.dozing.thread.Settled ∧
    Machine.dozing.thread.hostCalls = 0 ∧ ∃ m',
      call (Host.restless.reentry 4) 0 0 Machine.dozing = .raised .yield m' ∧
      m'.frameCount = Machine.dozing.frameCount ∧ ¬m'.thread.Settled :=
  ⟨nofun, by decide, rfl, _, rfl, rfl, by decide⟩

end LuaMachine
