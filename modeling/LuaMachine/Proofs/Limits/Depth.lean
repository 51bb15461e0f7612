import LuaMachine.Proofs.Limits.Frames
import LuaMachine.Proofs.Suspension.Return
import LuaMachine.Proofs.Unwinding.HostCall

namespace LuaMachine

open Machine Exec Relation

structure Machine.Awake (m : Machine) : Prop where
  there : m.running.index < m.threads.size
  parked : m.thread.parked = false
  status : m.thread.status ≠ .yield
  positive : 0 < m.frameCount

theorem Machine.Awake.landed {m : Machine} (hm : m.Awake) :
    Landed False m.running m.frameCount m.thread.counts m False m :=
  ⟨.refl .., hm.there, hm.positive, rfl, hm.parked, hm.status, rfl, False.elim⟩

structure Machine.Restores (m m' : Machine) : Prop where
  running : m'.running = m.running
  frameCount : m'.frameCount = m.frameCount
  counts : m'.thread.counts = m.thread.counts

def Outcome.Restores {α : Type} (m : Machine) : Outcome α → Prop
  | .done _ m' | .raised _ m' => m.Restores m'
  | .exhausted => True

structure Host.LimitsNesting (host : Host) : Prop where
  session : ∀ fuel limits library operations,
    (host.run fuel limits library operations).Ends (Condition.Limited limits 0) mainThread
  operation : ∀ {limits : Limits} fuel outer op m, m.Limited limits 0 →
    (perform (host.reentry fuel) outer op m).Ends (Condition.Limited limits 0) m.running
  native : ∀ {limits : Limits} fuel f m, m.Limited limits 0 →
    (host.invoke fuel f m).Ends (Condition.Limited limits 0) m.running
  loop : ∀ {limits : Limits} fuel stop site m, m.Limited limits 0 →
    (host.dispatch fuel stop site m).Ends (Condition.Limited limits 0) m.running
  walk : ∀ {limits : Limits} {fuel stop : Nat} {p q : Point},
    ReflTransGen (Point.Moves (host.reentry fuel) stop) p q → p.machine.Limited limits 0 →
    q.machine.Limited limits 0
  overflow : ∀ {fuel : Nat} {m : Machine} {callee : Value} {args args' : List Value} {f : FunctionId}
      (wanted : Int) (site : CallSite),
    callTarget chainLimit callee args m = .done (f, args') m → m.limits.callDepth < m.frameCount →
    callValue (host.reentry fuel) callee args wanted site m =
      .raised (.fault .frameOverflow m.location) m
  refusedCall : ∀ {fuel nargs : Nat} {wanted : Int} {m : Machine}, m.Awake →
    m.limits.nesting ≤ m.thread.nesting →
    ∃ m', call (host.reentry fuel) nargs wanted m = .raised (.fault .hostOverflow m.location) m' ∧
      m'.running = m.running ∧ m'.thread = m.thread
  refusedMetamethod : ∀ {fuel nargs : Nat} {wanted : Int} {m : Machine},
    m.limits.nesting ≤ m.thread.nesting → callYieldable (host.reentry fuel) nargs wanted m =
      .raised (.fault .hostOverflow m.location) m
  called : ∀ {fuel nargs : Nat} {wanted : Int} {site : CallSite} {waits : Bool} {m m₁ : Machine}
      {p : Point}, m.Awake → m.thread.nesting < m.limits.nesting →
    enter (host.reentry fuel) nargs wanted site (m.deeper waits) = .done true m₁ →
    ReflTransGen (Point.Moves (host.reentry fuel) m.frameCount) (.running m₁) p →
    p.machine.running = m.running ∧ p.machine.thread.counts = m.thread.counts.deeper waits ∧
      p.machine.thread.nesting ≤ m.limits.nesting
  counts : ∀ {fuel stop : Nat} {site : Option CallSite} {m₀ : Machine} {p : Point},
    m₀.Enters stop site →
    ReflTransGen (Point.Moves (host.reentry fuel) stop) (.start m₀ site) p →
    p.machine.running = m₀.running ∧ p.machine.thread.counts = m₀.thread.counts
  restored : ∀ {fuel nargs : Nat} {wanted : Int} {m : Machine}, m.Awake →
    (call (host.reentry fuel) nargs wanted m).Restores m
  contained : ∀ {fuel nargs : Nat} {wanted index : Int} {m : Machine}, m.Prepared nargs →
    (Exec.pcall (host.reentry fuel) nargs wanted index m).Restores m
  /-- A resume at the limit is refused with an error object, and no frame is left behind. The thread
  keeps the count that has been too high. -/
  refusedResume : ∀ {fuel nargs : Nat} {source : Option ThreadId} {m : Machine}, m.Awake →
    ¬(m.isNamed m.running = true ∧ m.thread.phase = .dead) → m.frameCount ≤ 1 →
    nargs + 1 ≤ m.frame.top → m.limits.nesting ≤ innerNesting m source →
    ∃ m', resume (host.reentry fuel) source nargs m = .done (.runtimeError, 1) m' ∧
      m'.running = m.running ∧ m'.frameCount = m.frameCount ∧
      m'.thread.counts = ⟨m.thread.hostCalls, innerNesting m source⟩
  started : ∀ {fuel nargs : Nat} {source : Option ThreadId} {m m₁ : Machine} {p : Point}, m.Awake →
    m.Resumable source nargs →
    enter (host.reentry fuel) nargs (-1) .host (m.resumed source) = .done true m₁ →
    ReflTransGen (Point.Moves (host.reentry fuel) 1) (.running m₁) p →
    p.machine.running = m.running ∧ p.machine.thread.counts = ⟨0, innerNesting m source⟩ ∧
      p.machine.thread.nesting < m.limits.nesting
  continued : ∀ {fuel nargs : Nat} {source : Option ThreadId} {call : PendingCall} {m : Machine},
    m.running.index < m.threads.size → m.thread.parked = false → 0 < m.frameCount →
    m.Resumable source nargs → m.thread.pending = some call →
    ∃ m₁, continueCall (host.reentry fuel) nargs (m.resumed source) =
        host.dispatch fuel 1 (some call.site) m₁ ∧
      ∀ {fuel' : Nat} {p : Point},
        ReflTransGen (Point.Moves (host.reentry fuel') 1) (.start m₁ (some call.site)) p →
        p.machine.running = m.running ∧ p.machine.thread.counts = ⟨0, innerNesting m source⟩ ∧
          p.machine.thread.nesting < m.limits.nesting

section Counts

variable {host : Host} {fuel stop nargs : Nat} {wanted : Int} {site : Option CallSite}
  {m m₀ m₁ : Machine} {p : Point}

theorem Host.walk_counts (hm : m₀.Enters stop site)
    (hw : ReflTransGen (Point.Moves (host.reentry fuel) stop) (.start m₀ site) p) :
    p.machine.running = m₀.running ∧ p.machine.thread.counts = m₀.thread.counts := by
  have hp := (hm.stays False.elim).walk (host.shelters False.elim _ fuel) hm.positive hw
  obtain ⟨y, hl⟩ := hp.standing
  exact ⟨hp.running, by rw [Machine.thread, hp.running]; exact hl.counts⟩

theorem Host.entered_counts {site : CallSite} (h0 : 0 < m.frameCount)
    (hth : m.running.index < m.threads.size) (hp : m.thread.parked = false)
    (hs : m.thread.status ≠ .yield)
    (he : enter (host.reentry fuel) nargs wanted site m = .done true m₁) (hn : stop = m.frameCount)
    (hw : ReflTransGen (Point.Moves (host.reentry fuel) stop) (.running m₁) p) :
    p.machine.running = m.running ∧ p.machine.thread.counts = m.thread.counts := by
  subst hn
  obtain ⟨hE, hr, hc, -⟩ :=
    enter_enters (host.shelters False.elim _ fuel) h0 hth hp hs False.elim he
  obtain ⟨hr', hc'⟩ := walk_counts hE hw
  exact ⟨hr'.trans hr, hc'.trans hc⟩

theorem Machine.Awake.restored (hm : m.Awake) :
    (call (host.reentry fuel) nargs wanted m).Restores m := by
  by_cases hl : m.thread.nesting < m.limits.nesting
  · have hc := hostCalled_call (host.shelters False.elim _ fuel) nargs wanted hm.landed rfl hl
    cases he : call (host.reentry fuel) nargs wanted m with
    | done a m' =>
      rw [he] at hc
      obtain ⟨hr, vs, hx⟩ := hc
      refine ⟨hr, hx.handed.frameCount hr, ?_⟩
      rw [Machine.thread, hr]
      exact hx.handed.standing.counts
    | raised e m' =>
      rw [he] at hc
      obtain ⟨hr, -, hx⟩ := hc
      refine ⟨hr, hx.frameCount hr, ?_⟩
      rw [Machine.thread, hr]
      exact hx.counts
    | exhausted => trivial
  · obtain ⟨m', he, hr, hth, hx⟩ :=
      call_limited (host.reentry fuel) nargs wanted hm.landed rfl (Nat.not_lt.mp hl)
    rw [he]
    refine ⟨hr, hx.frameCount hr, ?_⟩
    rw [Machine.thread, hr, hth]
    rfl

theorem Machine.Replaces.restores {vs : List Value} {m' : Machine} (h : m.Replaces nargs vs m') :
    m.Restores m' := ⟨h.running, h.frameCount, h.counts⟩

theorem Machine.Prepared.restored {index : Int} (hm : m.Prepared nargs) :
    (Exec.pcall (host.reentry fuel) nargs wanted index m).Restores m := by
  have hre := host.shelters False.elim m.running fuel
  obtain ⟨handler, hh⟩ := m.exists_handles index
  rw [pcall_eq _ _ _ _ hh]
  cases he : holding handler.toList (call (host.reentry fuel) nargs wanted) m with
  | done a m' =>
    obtain ⟨vs, -, hr⟩ := hm.returned hre False.elim he
    exact hr.restores
  | raised e m₁ =>
    obtain ⟨m₂, -, ⟨hd, -⟩ | ⟨status, v, m', hd, -, hr⟩⟩ := hm.contained hre False.elim he
    · dsimp only
      rw [hd]
      trivial
    · dsimp only
      rw [hd]
      exact hr.restores
  | exhausted => trivial

theorem Exec.resume_limited (re : Reentry) {source : Option ThreadId} (hm : m.Awake)
    (hd : ¬(m.isNamed m.running = true ∧ m.thread.phase = .dead)) (hn : m.frameCount ≤ 1)
    (ht : nargs + 1 ≤ m.frame.top) (hl : m.limits.nesting ≤ innerNesting m source) :
    ∃ m', resume re source nargs m = .done (.runtimeError, 1) m' ∧ m'.running = m.running ∧
      m'.frameCount = m.frameCount ∧
      m'.thread.counts = ⟨m.thread.hostCalls, innerNesting m source⟩ := by
  have hd' : ¬(m.isNamed m.running && m.thread.phase == .dead) = true := fun h => by
    rw [Bool.and_eq_true, beq_iff_eq] at h
    exact hd h
  have hb : (m.below source).threadAt m.running = _ := m.threadAt_modify_there hm.there _
  refine ⟨((m.below source).modifyTop m.running (·.drop nargs)).modifyTop m.running
    (·.push (.ofString "C stack overflow")), ?_, rfl, ?_, ?_⟩
  · rw [resume_eq, if_neg hd', if_neg fun h => Nat.not_le.mpr h.2 hn,
      if_neg fun h => Nat.not_le.mpr h.2 ht, run_bind, run_modifyThread, Outcome.andThen_done, if_pos hl]
    rfl
  · change (Machine.threadAt _ m.running).frames.size = _
    rw [size_modifyTop, size_modifyTop, hb]
    rfl
  · have hc := fields_modify Thread.counts ((m.below source).modifyTop m.running (·.drop nargs))
      m.running m.running (g := fun th => { th with
        frames := modifyFrames (th.frames.size - 1) (·.push (.ofString "C stack overflow")) th.frames })
      fun _ => rfl
    have hc' := fields_modify Thread.counts (m.below source) m.running m.running
      (g := fun th => { th with
        frames := modifyFrames (th.frames.size - 1) (·.drop nargs) th.frames }) fun _ => rfl
    refine hc.trans (hc'.trans ?_)
    rw [hb]
    rfl

end Counts

/-- No call gets past the limits, and none leaves a count behind but a resume. -/
theorem Host.limitsNesting (host : Host) : host.LimitsNesting := by
  constructor
  case session =>
    exact fun fuel limits library operations =>
      (host.maintains _).session fuel limits library operations (Housed.new limits).limited
  case operation => exact fun {limits} => (host.maintains (Machine.Limited limits 0)).operation
  case native => exact fun {limits} => (host.maintains (Machine.Limited limits 0)).native
  case loop => exact fun {limits} => (host.maintains (Machine.Limited limits 0)).loop
  case walk => exact fun {limits} => (host.maintains (Machine.Limited limits 0)).walk
  case overflow =>
    intro fuel m callee args args' f wanted site hc hd
    rw [callValue, run_bind, hc, Outcome.andThen_done, launch_eq, if_pos hd]
    rfl
  case refusedCall =>
    intro fuel nargs wanted m hm hl
    obtain ⟨m', he, hr, hth, -⟩ := call_limited (host.reentry fuel) nargs wanted hm.landed rfl hl
    exact ⟨m', he, hr, by rw [Machine.thread, hr, hth]; rfl⟩
  case refusedMetamethod =>
    intro fuel nargs wanted m hl
    rw [callYieldable, nested_eq, if_pos hl]
  case called =>
    intro fuel nargs wanted site waits m m₁ p hm hl he hw
    have hx := hm.landed.deeper rfl waits
    have hn : (m.deeper waits).frameCount = m.frameCount := hx.size
    obtain ⟨hr, hc⟩ := entered_counts (hn ▸ hm.positive) hx.there hx.parked hx.status he hn.symm hw
    have hc : p.machine.thread.counts = m.thread.counts.deeper waits := hc.trans hx.counts
    exact ⟨hr, hc, Nat.le_trans (Nat.le_of_eq (congrArg Counts.nesting hc)) hl⟩
  case counts => exact fun hm hw => walk_counts hm hw
  case restored => exact fun hm => hm.restored
  case contained => exact fun hm => hm.restored
  case refusedResume =>
    intro fuel nargs source m hm hd hn ht hl
    exact resume_limited _ hm hd hn ht hl
  case started =>
    intro fuel nargs source m m₁ p hm hx he hw
    obtain ⟨hth, hs, hc⟩ := there_resumed hm.there source
    obtain ⟨hr, -, hp, -⟩ := m.thread_resumed source
    have hn := m.frameCount_resumed source
    have hone : 1 = (m.resumed source).frameCount := by
      have := (hx.ready.resolve_left hm.status).1
      have := hm.positive
      omega
    obtain ⟨hr', hc'⟩ := entered_counts (hn ▸ hm.positive) hth (hp.trans hm.parked)
      (by rw [hs]; decide) he hone hw
    have hc' := hc'.trans hc
    exact ⟨hr'.trans hr, hc', Nat.lt_of_le_of_lt (Nat.le_of_eq (congrArg Counts.nesting hc')) hx.limit⟩
  case continued =>
    intro fuel nargs source call m hth hp h0 hx hcall
    obtain ⟨hth', hs, hc⟩ := there_resumed hth source
    obtain ⟨hr, -, hp', hcall'⟩ := m.thread_resumed source
    obtain ⟨m₁, he, hE, hr₁, hc₁, -⟩ := continueCall_enters (host.reentry fuel) nargs
      ((m.frameCount_resumed source).symm ▸ h0) hth' (hp'.trans hp) (by rw [hs]; decide)
      (hcall'.trans hcall)
    refine ⟨m₁, he, fun hw => ?_⟩
    obtain ⟨hr₂, hc₂⟩ := walk_counts hE hw
    have hc₂ := hc₂.trans (hc₁.trans hc)
    exact ⟨hr₂.trans (hr₁.trans hr), hc₂,
      Nat.lt_of_le_of_lt (Nat.le_of_eq (congrArg Counts.nesting hc₂)) hx.limit⟩

/-- A native function that the main thread has called is about to resume a coroutine, the body of which
is on its stack. No call may be nested any deeper. -/
def Machine.crowded : Machine :=
  { Machine.new { nesting := 1 } with
    functions := #[{ body := .native (.script 0) }]
    threads := #[{ isMain := true, parked := false, phase := .running, nesting := 1 },
      { parked := false, frames := #[{ window := #[.function ⟨0⟩], top := 1 }] }]
    running := ⟨1⟩ }

/-- The resume is refused before the body is started, and the coroutine keeps its count. -/
theorem Host.limitsNesting_crowded : ∃ m',
    resume (({} : Host).reentry 1) (some mainThread) 0 Machine.crowded = .done (.runtimeError, 1) m' ∧
    m'.running = ⟨1⟩ ∧ m'.frameCount = 1 ∧ m'.thread.counts = ⟨0, 2⟩ := by
  have hm : Machine.crowded.Awake := ⟨by decide, rfl, by decide, by decide⟩
  exact ({} : Host).limitsNesting.refusedResume hm (by decide) (by decide) (by decide) (by decide)

/-- The resume is refused, and nothing can be called in the coroutine any more. -/
theorem Machine.crowded_counted : ∃ m₁ m₂,
    resume (({} : Host).reentry 1) (some mainThread) 0 Machine.crowded = .done (.runtimeError, 1) m₁ ∧
    Machine.crowded.thread.nesting = 0 ∧ m₁.limits.nesting < m₁.thread.nesting ∧
    (push (.function ⟨0⟩) >>= fun _ => call (({} : Host).reentry 3) 0 (-1)) m₁ =
      .raised (.fault .hostOverflow none) m₂ :=
  ⟨_, _, rfl, rfl, by decide, rfl⟩

end LuaMachine
