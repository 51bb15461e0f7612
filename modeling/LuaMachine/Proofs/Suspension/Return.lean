import LuaMachine.Proofs.Suspension.Calls
import LuaMachine.Proofs.Suspension.Resume
import LuaMachine.Proofs.Unwinding.Boundary

namespace LuaMachine

open Machine Exec Relation

namespace Machine

structure Runs (m : Machine) : Prop where
  there : m.running.index < m.threads.size
  parked : m.thread.parked = false
  status : m.thread.status ≠ .yield
  pending : m.thread.pending = none
  inner : 1 < m.frameCount

/-- The running frame is at a call instruction whose callee is an ordinary native function. Once the
function and its arguments have been taken off the stack, the machine is the second one. -/
structure Summons (m : Machine) (site : CallSite) (f : FunctionId) (body : Native)
    (args : List Value) (m' : Machine) : Prop where
  summoned : ∃ i m₁, fetch m = .done i m₁ ∧ i.callSite? = some site ∧
    summon i m₁ = .done (f, args) m'
  native : (m'.functionAt f).body = .native body
  ordinary : body.protects = false
  depth : m'.frameCount ≤ m'.limits.callDepth

def begun (m : Machine) (site : CallSite) (f : FunctionId) (args : List Value) : Machine :=
  m.enterFrame m.running (nativeFrame f args site.wanted site)

/-- A thread is resumed with values in whose frame `f` a call is open. What was on top of the frame
may be there still, or not. -/
structure Answers (m : Machine) (f : Frame) (site : CallSite) (vs : List Value) : Prop where
  inner : 1 < m.frameCount
  status : m.thread.status = .yield
  pending : m.thread.pending = some { site, wanted := site.wanted, base := f.top }
  control : m.frame.control = { f.control with top := m.frame.top }
  values : ∃ rest, m.frame.values = f.values ++ rest ++ vs

structure Resumable (m : Machine) (source : Option ThreadId) (nargs : Nat) : Prop where
  alive : ¬(m.isNamed m.running = true ∧ m.thread.phase = .dead)
  ready : m.thread.status = .yield ∨ m.frameCount ≤ 1 ∧ nargs + 1 ≤ m.frame.top
  limit : innerNesting m source < m.limits.nesting

def below (m : Machine) (source : Option ThreadId) : Machine :=
  { m with threads := m.threads.modify m.running.index fun th =>
      { th with nesting := innerNesting m source } }

def resumed (m : Machine) (source : Option ThreadId) : Machine :=
  (m.below source).takenUp source (m.isNamed m.running)

variable {m m' m₁ : Machine} {site : CallSite} {f : FunctionId} {body : Native} {args : List Value}
  {vs : List Value} {source : Option ThreadId} {nargs : Nat}

theorem Runs.landed (hm : m.Runs) :
    Landed True m.running m.frameCount m.thread.counts m False m :=
  ⟨.refl .., hm.there, Nat.zero_lt_of_lt hm.inner, rfl, hm.parked, hm.status, rfl,
    fun _ => ⟨rfl, False.elim, .inl hm.pending⟩⟩

theorem Runs.ofLanded {honest : Prop} {t : ThreadId} {n : Nat} {c : Counts} {m₀ : Machine}
    (hm : Landed honest t n c m₀ False m) (hh : honest) (ht : m.running = t) (hn : 1 < n) :
    m.Runs := by
  subst ht
  exact ⟨hm.there, hm.parked, hm.status, (hm.calm hh).3.resolve_right id,
    Nat.lt_of_lt_of_eq hn hm.size.symm⟩

theorem Runs.touches (hm : m.Runs) (h : m.Touches m') : m'.Runs := by
  obtain ⟨g, held, rfl⟩ := h
  have hl := hm.landed.top g
  exact .ofLanded { hl with intact := intact_of_frames rfl rfl rfl } trivial rfl hm.inner

theorem Summons.touches (h : m.Summons site f body args m') : m.Touches m' := by
  obtain ⟨i, m₁, hf, -, hs⟩ := h.summoned
  exact (Local.touches hf).trans (Local.touches hs)

theorem Summons.execute (h : m.Summons site f body args m') (re : Reentry) : execute re m =
    (callNative re f body args site.wanted site m').andThen fun running =>
      if running = true then pure none else accept re site := by
  obtain ⟨i, m₁, hf, hi, hs⟩ := h.summoned
  rw [execute_summon re hf hi, run_bind, hs, Outcome.andThen_done, run_bind, launch_eq,
    if_neg (Nat.not_lt.mpr h.depth)]
  dsimp only
  rw [h.native]

section Native

variable {host : Host} {fuel k : Nat} {m₂ : Machine}

theorem Summons.solo (hh : host.Honest) (hm : m.Runs) (h : m.Summons site f body args m')
    (hi : (host.reentry fuel).invoke body (m'.begun site f args) = .raised .yield m₂) :
    m₂.running = m'.running ∧ Solo True m'.running m'.frameCount m'.thread.hostCalls
      (nativeFrame f args site.wanted site).origin m' m'.running true m₂ := by
  cases fuel with
  | zero => cases hi
  | succ fuel =>
    have hf : f.index < m'.functions.size := Nat.not_le.mp fun hf => by
      rcases (host.genuine_reentry (fuel + 1)).invoke_absent hf h.native (m'.begun site f args) with
        he | ⟨_, he⟩ <;> cases hi.symm.trans he
    have hl := (hm.touches h.touches).landed
    have hx : Sole True m'.running m'.frameCount m'.thread.counts
        (nativeFrame f args site.wanted site).origin m' m'.running false (m'.begun site f args) :=
      Sole.enterFrame hl rfl
    have hs : Keeps (Sole True m'.running m'.frameCount m'.thread.counts
        (nativeFrame f args site.wanted site).origin m') (host.native (host.reentry fuel) body) :=
      host.keeps_sole (fun _ => hh) _ _ _ _ _ False.elim (host.shelters (fun _ => hh) _ fuel) h.ordinary
        ⟨f, body, rfl, hf, h.native⟩
    have hr : (m'.begun site f args).running = m'.running := rfl
    have hk := hs.endsIn hr hx
    rw [show host.native (host.reentry fuel) body (m'.begun site f args) = _ from hi] at hk
    exact ⟨hk.1, hk.2.kept⟩

theorem Summons.suspends (hh : host.Honest) (hm : m.Runs) (h : m.Summons site f body args m')
    (hi : (host.reentry fuel).invoke body (m'.begun site f args) = yielding k m₁)
    (hy : yielding k m₁ = .raised .yield m₂) :
    ∃ m₃, Exec.execute (host.reentry fuel) m = .raised .yield m₃ ∧ m₃.running = m.running ∧
      m₃.Suspends m.running m₁.caller site site.wanted (m₁.frame.topValues k) := by
  have hr := h.touches.running
  obtain ⟨hr₂, hs⟩ := h.solo hh hm (hi.trans hy)
  obtain rfl := yielding_yields hy
  have hr₁ : m₁.running = m'.running := hr₂
  obtain ⟨m₃, he, hr₃, hx⟩ := callNative_suspends (hm.touches h.touches).inner hr₁ trivial
    (hi.trans hy) hs
  refine ⟨m₃, ?_, hr₃.trans hr, hr ▸ hx⟩
  rw [h.execute, he]
  rfl

theorem Summons.answers (hh : host.Honest) (hm : m.Runs) (h : m.Summons site f body args m')
    (hi : (host.reentry fuel).invoke body (m'.begun site f args) = yielding k m₁)
    (hy : yielding k m₁ = .raised .yield m₂) {re : Reentry}
    (hv : re.invoke body (m'.begun site f args) = returning vs m₁) :
    ∃ m₃, Exec.execute re m = .done none m₃ ∧ m₃.running = m.running ∧
      m₃.frameCount = m.frameCount ∧
      m₃.frame = site.stored (m₁.caller.pushAll (adjust vs site.wanted)) := by
  have hm' := hm.touches h.touches
  obtain ⟨hr₂, hs⟩ := h.solo hh hm (hi.trans hy)
  obtain rfl := yielding_yields hy
  have hr₁ : m₁.running = m'.running := hr₂
  rw [hr₁] at hs
  obtain ⟨m₃, he, hr₃, hn, hf⟩ := callNative_answers hm'.inner hr₁ hv (hs.ofYield hr₁)
  have hone : 1 < m₃.frameCount := hn ▸ hm'.inner
  obtain ⟨i, -, -, hi, -⟩ := h.summoned
  refine ⟨m₃.modifyTop m₃.running site.stored, ?_, hr₃.trans h.touches.running,
    (m₃.size_modifyTop ..).trans (hn.trans h.touches.frameCount), ?_⟩
  · rw [h.execute, he, Outcome.andThen_done, if_neg Bool.false_ne_true]
    exact accept_stored re hi hone
  · exact (frameAt_modifyTop_self hone _).trans (congrArg site.stored hf)

end Native

section Resume

variable {m₀ : Machine} {g : Frame} (re : Reentry)

theorem Answers.continued (h : m.Answers g site vs) :
    (g.pushAll (adjust vs site.wanted)).Alike
      (m.frame.continued vs.length { site, wanted := site.wanted, base := g.top }) := by
  obtain ⟨rest, hv⟩ := h.values
  have ht : m.frame.top = g.top + rest.length + vs.length := by
    rw [← m.frame.length_values, hv, List.length_append, List.length_append, g.length_values]
  have hd : (m.frame.drop vs.length).values = g.values ++ rest := by
    rw [Frame.values_drop, hv, ht, Nat.add_sub_cancel]
    exact List.take_left' (by rw [List.length_append, g.length_values])
  have hdt : (m.frame.drop vs.length).top = g.top + rest.length := by
    rw [← Frame.length_values, hd, List.length_append, g.length_values]
  have hg : g.Alike ((m.frame.drop vs.length).setTop g.top) := by
    refine ⟨?_, ?_⟩
    · change ({ m.frame.control with top := g.top } : Frame) = g.control
      rw [h.control]
      rfl
    · rw [Frame.values_setTop _ _ (by omega), hd]
      exact List.take_left' g.length_values
  have htop : m.frame.topValues vs.length = vs := by
    rw [Frame.topValues_eq, hv, ht, Nat.add_sub_cancel]
    exact List.drop_left' (by rw [List.length_append, g.length_values])
  have hx := hg.pushAll (adjust vs site.wanted)
  rw [Frame.continued, htop]
  exact hx

theorem Awaits.answers {ws : List Value} (h : m.Awaits m.running g site site.wanted ws)
    (vs : List Value) : (m.modifyTop m.running (·.pushAll vs)).Answers g site vs := by
  have hf : (m.modifyTop m.running (·.pushAll vs)).frame = m.frame.pushAll vs :=
    frameAt_modifyTop_self h.inner _
  have hg : m.frame = g.pushAll ws := h.frame
  have ht : (m.modifyTop m.running (·.pushAll vs)).thread = _ := m.threadAt_modifyTop h.inner _
  refine ⟨Nat.lt_of_lt_of_eq h.inner (m.size_modifyTop ..).symm, ?_, ?_, ?_, ws, ?_⟩
  · rw [ht]
    exact h.status
  · rw [ht]
    exact h.pending
  · rw [hf, hg]
    rfl
  · rw [hf, hg, Frame.values_pushAll, Frame.values_pushAll]

theorem dispatch_stored (host : Host) (fuel : Nat) {i : Instruction} (hi : i.callSite? = some site)
    (h : 1 < m.frameCount) : host.dispatch fuel 1 (some site) m =
      host.dispatch fuel 1 none (m.modifyTop m.running site.stored) := by
  cases fuel with
  | zero => rfl
  | succ fuel =>
    have hd : deliver (host.reentry fuel) 1 site m =
        .done false (m.modifyTop m.running site.stored) := by
      have hn : site ≠ .host := by
        rintro rfl
        unfold Instruction.callSite? at hi
        split at hi <;> cases hi
      rw [deliver, run_bind, run_frameCount, Outcome.andThen_done, deliverAt_succ,
        if_neg (not_or.mpr ⟨Nat.not_le.mpr h, hn⟩), accept_stored _ hi h]
      rfl
    change settle (host.reentry fuel) 1 fuel (deliver (host.reentry fuel) 1 site m) = _
    rw [hd]
    rfl

theorem fields_takenUp {α : Type} (p : Thread → α) (named : Bool) (t : ThreadId)
    (hp : ∀ th phase, p { th with phase } = p th)
    (hs : ∀ th, p { th with hostCalls := 0, status := .ok } = p th) :
    p ((m.takenUp source named).threadAt t) = p (m.threadAt t) := by
  have hph : ∀ (m : Machine) s phase, p ((m.withPhase s phase).threadAt t) = p (m.threadAt t) :=
    fun m s phase => fields_modify p m s t fun th => hp th phase
  have hw : ∀ s, p ((m.waiting s).threadAt t) = p (m.threadAt t) := by
    intro s
    cases s with
    | none => rfl
    | some s => exact hph m s _
  unfold takenUp
  refine (fields_modify p _ m.running t hs).trans ?_
  cases named with
  | false => exact hw _
  | true => exact (hph _ _ _).trans (hw _)

theorem fields_resumed {α : Type} (p : Thread → α) (t : ThreadId)
    (hp : ∀ th phase, p { th with phase } = p th)
    (hs : ∀ th, p { th with hostCalls := 0, status := .ok } = p th)
    (hn : ∀ th nesting, p { th with nesting } = p th) :
    p ((m.resumed source).threadAt t) = p (m.threadAt t) :=
  (fields_takenUp p _ t hp hs).trans (fields_modify p m m.running t fun th => hn th _)

theorem size_waiting (m : Machine) (s : Option ThreadId) :
    (m.waiting s).threads.size = m.threads.size := by
  cases s with
  | none => rfl
  | some s => exact Array.size_modify ..

theorem running_takenUp (m : Machine) (source : Option ThreadId) (named : Bool) :
    (m.takenUp source named).running = m.running := by
  unfold takenUp
  generalize source.filter m.isNamed = s
  cases s <;> cases named <;> rfl

theorem status_takenUp (h : m.running.index < m.threads.size) (source : Option ThreadId)
    (named : Bool) :
    (m.takenUp source named).running.index < (m.takenUp source named).threads.size ∧
      (m.takenUp source named).thread.status = .ok ∧
      (m.takenUp source named).thread.hostCalls = 0 := by
  have hr := m.running_takenUp source named
  rw [Machine.thread, hr]
  unfold takenUp
  dsimp only
  generalize hm₂ : (if named = true then (m.waiting (source.filter m.isNamed)).withPhase m.running
    .running else m.waiting (source.filter m.isNamed)) = m₂
  have hs : m₂.threads.size = m.threads.size := by
    rw [← hm₂]
    cases named with
    | false => exact size_waiting m _
    | true => exact (Array.size_modify ..).trans (size_waiting m _)
  rw [← hs] at h
  have ht := m₂.threadAt_modify_there h fun th => { th with hostCalls := 0, status := .ok }
  exact ⟨Nat.lt_of_lt_of_eq h (Array.size_modify ..).symm, congrArg Thread.status ht,
    congrArg Thread.hostCalls ht⟩

def surrender (m : Machine) (source : Option ThreadId) (result : Except Error Unit) :
    Exec (Status × Nat) := do
  letGo (m.below source)
  endResume (source.filter (m.below source).isNamed) m.running (m.isNamed m.running) result

theorem Resumable.resume_eq (h : m.Resumable source nargs) : resume re source nargs m =
    (attempt (if m.thread.status == .yield then continueCall re nargs else startBody re nargs)
      (m.resumed source)).andThen (m.surrender source) := by
  have hd : ¬(m.isNamed m.running && m.thread.phase == .dead) = true := fun hd => by
    rw [Bool.and_eq_true, beq_iff_eq] at hd
    exact h.alive hd
  have hr : ¬(m.thread.status ≠ .yield ∧ 1 < m.frameCount) := fun ⟨hs, hn⟩ =>
    Nat.not_le.mpr hn (h.ready.resolve_left hs).1
  have hn : ¬(m.thread.status ≠ .yield ∧ m.frame.top < nargs + 1) := fun ⟨hs, hn⟩ =>
    Nat.not_le.mpr hn (h.ready.resolve_left hs).2
  rw [Exec.resume_eq, if_neg hd, if_neg hr, if_neg hn, run_bind, run_modifyThread,
    Outcome.andThen_done, if_neg (Nat.not_le.mpr h.limit)]
  exact takeUp_eq re source nargs _ _ (m.below source)

theorem thread_resumed (m : Machine) (source : Option ThreadId) :
    (m.resumed source).running = m.running ∧
      (m.resumed source).thread.frames = m.thread.frames ∧
      (m.resumed source).thread.parked = m.thread.parked ∧
      (m.resumed source).thread.pending = m.thread.pending := by
  have hr : (m.resumed source).running = m.running := running_takenUp ..
  rw [Machine.thread, hr]
  exact ⟨rfl, fields_resumed Thread.frames _ (fun _ _ => rfl) (fun _ => rfl) fun _ _ => rfl,
    fields_resumed Thread.parked _ (fun _ _ => rfl) (fun _ => rfl) fun _ _ => rfl,
    fields_resumed Thread.pending _ (fun _ _ => rfl) (fun _ => rfl) fun _ _ => rfl⟩

theorem there_resumed (h : m.running.index < m.threads.size) (source : Option ThreadId) :
    (m.resumed source).running.index < (m.resumed source).threads.size ∧
      (m.resumed source).thread.status = .ok ∧
      (m.resumed source).thread.counts = ⟨0, innerNesting m source⟩ := by
  have hb : (m.below source).running.index < (m.below source).threads.size :=
    Nat.lt_of_lt_of_eq h (Array.size_modify ..).symm
  obtain ⟨hth, hs, hc⟩ := status_takenUp hb source (m.isNamed m.running)
  refine ⟨hth, hs, ?_⟩
  have hn : (m.resumed source).thread.nesting = (m.below source).thread.nesting := by
    rw [Machine.thread, (m.thread_resumed source).1]
    exact fields_takenUp Thread.nesting _ _ (fun _ _ => rfl) fun _ => rfl
  have hi : (m.below source).thread.nesting = innerNesting m source :=
    congrArg Thread.nesting (m.threadAt_modify_there h _)
  rw [Thread.counts, hn, hi, show (m.resumed source).thread.hostCalls = 0 from hc]

theorem frameCount_resumed (m : Machine) (source : Option ThreadId) :
    (m.resumed source).frameCount = m.frameCount :=
  congrArg Array.size (m.thread_resumed source).2.1

theorem frame_resumed (m : Machine) (source : Option ThreadId) :
    (m.resumed source).frame = m.frame := by
  obtain ⟨hr, hf, -⟩ := m.thread_resumed source
  exact congrArg (fun fs : Array Frame => fs.back?.getD default) hf

theorem Answers.resumed (h : m.Answers g site vs) (source : Option ThreadId) (host : Host)
    (fuel : Nat) {i : Instruction} (hi : i.callSite? = some site) :
    ∃ m', continueCall (host.reentry fuel) vs.length (m.resumed source) =
        host.dispatch fuel 1 none m' ∧ m'.running = m.running ∧ m'.frameCount = m.frameCount ∧
      (site.stored (g.pushAll (adjust vs site.wanted))).Alike m'.frame := by
  obtain ⟨hr, -, -, hp⟩ := m.thread_resumed source
  have hone : 1 < (m.resumed source).frameCount := (m.frameCount_resumed source).symm ▸ h.inner
  have hone₁ : 1 < (m.resumed source).callClosed.frameCount := (frameCount_callClosed hone).symm ▸ hone
  let call : PendingCall := { site, wanted := site.wanted, base := g.top }
  have hc := continueCall_eq (host.reentry fuel) vs.length (hp.trans h.pending)
  have hf : ((m.resumed source).callClosed.modifyTop (m.resumed source).running
      (·.continued vs.length call)).frame = m.frame.continued vs.length call := by
    have hf : ((m.resumed source).callClosed.modifyTop (m.resumed source).running
      (·.continued vs.length call)).frame = _ := frameAt_modifyTop_self hone₁ _
    exact hf.trans (congrArg (Frame.continued vs.length call)
      ((frame_callClosed hone).trans (m.frame_resumed source)))
  generalize hm₁ : (m.resumed source).callClosed.modifyTop (m.resumed source).running
    (·.continued vs.length call) = m₁ at hc hf
  have hr₁ : m₁.running = m.running := by rw [← hm₁]; exact hr
  have hn₁ : m₁.frameCount = m.frameCount := by
    rw [← hm₁]
    exact (size_modifyTop ..).trans ((frameCount_callClosed hone).trans (m.frameCount_resumed source))
  refine ⟨m₁.modifyTop m₁.running site.stored, hc.trans ?_, hr₁, (size_modifyTop ..).trans hn₁, ?_⟩
  · exact dispatch_stored host fuel hi (hn₁.symm ▸ h.inner)
  · have hone₁ : 1 < m₁.frameCount := hn₁.symm ▸ h.inner
    have hx : (m₁.modifyTop m₁.running site.stored).frame = site.stored m₁.frame :=
      frameAt_modifyTop_self hone₁ _
    rw [hx, hf]
    exact site.stored_alike h.continued

end Resume

end Machine

/-- How a call instruction goes on whose callee is a native function that yields. -/
structure Host.ResumesCalls (host : Host) : Prop where
  started : host.Honest → ∀ {fuel nargs : Nat} {source : Option ThreadId} {m m' : Machine},
    m.running.index < m.threads.size → m.thread.parked = false → m.frameCount = 1 →
    m.thread.pending = none →
    enter (host.reentry fuel) nargs (-1) .host (m.resumed source) = .done true m' →
    startBody (host.reentry fuel) nargs (m.resumed source) = host.dispatch fuel 1 none m' ∧
      m'.Enters 1 none ∧ m'.running = m.running ∧ m'.thread.pending = none
  continued : ∀ {fuel nargs : Nat} {source : Option ThreadId} {m : Machine} {call : PendingCall},
    m.running.index < m.threads.size → m.thread.parked = false → 0 < m.frameCount →
    m.thread.pending = some call →
    ∃ m', continueCall (host.reentry fuel) nargs (m.resumed source) =
        host.dispatch fuel 1 (some call.site) m' ∧
      m'.Enters 1 (some call.site) ∧ m'.running = m.running ∧ m'.thread.pending = none
  nested : host.Honest → ∀ {fuel nargs : Nat} {wanted : Int} {m m' : Machine}, m.Runs →
    enter (host.reentry fuel) nargs wanted .metamethod (m.deeper false) = .done true m' →
    m'.Enters m.frameCount none ∧ m'.running = m.running ∧ m'.thread.pending = none
  runs : host.Honest → ∀ {fuel stop : Nat} {site : Option CallSite} {m₀ m : Machine},
    m₀.Enters stop site → m₀.thread.pending = none →
    ReflTransGen (Point.Moves (host.reentry fuel) stop) (.start m₀ site) (.running m) →
    m.running = m₀.running ∧ m.Runs
  /-- The resumer gets the upper `k` values of the callee. They are on top of the frame that has
  called it. -/
  received : host.Honest → ∀ {fuel inner nargs k : Nat} {source : Option ThreadId}
      {m₀ m₁ m m' n n' : Machine} {start : Option CallSite} {site : CallSite} {f : FunctionId}
      {body : Native} {args : List Value},
    m₀.Resumable source nargs →
    (if m₀.thread.status == .yield then continueCall (host.reentry (fuel + 1)) nargs
      else startBody (host.reentry (fuel + 1)) nargs) (m₀.resumed source) =
        host.dispatch (fuel + 1) 1 start m₁ →
    host.Comes inner (.running m) fuel 1 (.start m₁ start) →
    m.running = m₀.running → m.Runs → m.Summons site f body args m' →
    (host.reentry inner).invoke body (m'.begun site f args) = yielding k n →
    yielding k n = .raised .yield n' →
    resume (host.reentry (fuel + 1)) source nargs m₀ ≠ .exhausted →
    ∃ m₂, resume (host.reentry (fuel + 1)) source nargs m₀ =
        .done (.yield, (n.frame.topValues k).length) m₂ ∧
      m₂.running = m₀.running ∧
      m₂.Awaits m₀.running n.caller site site.wanted (n.frame.topValues k)
  /-- The next resume goes on as if the callee had returned the values that it brings along. -/
  resumed : host.Honest → ∀ {fuel inner k : Nat} {source : Option ThreadId} {re : Reentry}
      {m m' n n' m₁ : Machine} {site : CallSite} {f : FunctionId} {body : Native}
      {args vs : List Value},
    m.Runs → m.Summons site f body args m' →
    (host.reentry inner).invoke body (m'.begun site f args) = yielding k n →
    yielding k n = .raised .yield n' →
    re.invoke body (m'.begun site f args) = returning vs n →
    m₁.Resumable source vs.length → m₁.Answers n.caller site vs →
    ∃ m₂ m₃, Exec.execute re m = .done none m₂ ∧ m₂.running = m.running ∧
      m₂.frameCount = m.frameCount ∧
      resume (host.reentry fuel) source vs.length m₁ =
        (attempt (host.dispatch fuel 1 none) m₃).andThen (m₁.surrender source) ∧
      m₃.running = m₁.running ∧ m₃.frameCount = m₁.frameCount ∧ m₂.frame.Alike m₃.frame

/-- A yield at a call instruction is like a return, and the resumer gets its values. -/
theorem Host.resumesCalls (host : Host) : host.ResumesCalls := by
  constructor
  case started =>
    intro hh fuel nargs source m m' hth hp hn ho he
    obtain ⟨hr, -, hp', ho'⟩ := m.thread_resumed source
    obtain ⟨hth', hs', -⟩ := there_resumed hth source
    have hn' : (m.resumed source).frameCount = 1 := (m.frameCount_resumed source).trans hn
    obtain ⟨hE, hr', -, hpend⟩ := enter_enters (host.shelters (fun _ : True => hh) _ fuel)
      (Nat.lt_of_lt_of_eq Nat.one_pos hn'.symm) hth' (hp'.trans hp) (by rw [hs']; nofun)
      (fun _ => ho'.trans ho) he
    refine ⟨?_, hn' ▸ hE, hr'.trans hr, hpend trivial⟩
    rw [startBody, run_bind, he]
    rfl
  case continued =>
    intro fuel nargs source m call hth hp hn ho
    obtain ⟨hr, -, hp', ho'⟩ := m.thread_resumed source
    obtain ⟨hth', hs', -⟩ := there_resumed hth source
    obtain ⟨m', hc, hE, hr', -, -, hpend⟩ := continueCall_enters (host.reentry fuel) nargs
      ((m.frameCount_resumed source).symm ▸ hn) hth' (hp'.trans hp) (by rw [hs']; nofun)
      (ho'.trans ho)
    exact ⟨m', hc, hE, hr'.trans hr, hpend⟩
  case nested =>
    intro hh fuel nargs wanted m m' hm he
    have hl := hm.landed.deeper rfl false
    have hn : (m.deeper false).frameCount = m.frameCount := hl.size
    obtain ⟨hE, hr, -, hpend⟩ := enter_enters (host.shelters (fun _ : True => hh) _ fuel)
      (hn.symm ▸ hl.positive) hl.there hl.parked hl.status
      (fun _ => (hl.calm trivial).3.resolve_right id) he
    exact ⟨hn ▸ hE, hr, hpend trivial⟩
  case runs =>
    intro hh fuel stop site m₀ m hE hp hw
    obtain ⟨hr, hn, hl⟩ := (hE.stays fun _ : True => hp).walk (host.shelters (fun _ => hh) _ fuel)
      hE.positive hw
    exact ⟨hr, .ofLanded hl trivial hr (Nat.lt_of_le_of_lt hE.positive hn)⟩
  case received =>
    intro hh fuel inner nargs k source m₀ m₁ m m' n n' start site f body args hres hstart hcomes hr
      hm hsum hi hy hx
    obtain ⟨m₂, he, hr₂, hs⟩ := hsum.suspends hh hm hi hy
    have hd : host.dispatch (fuel + 1) 1 start m₁ ≠ .exhausted := fun hd => hx (by
      rw [hres.resume_eq, run_attempt_exhausted (hstart.trans hd)]
      rfl)
    obtain ⟨m₃, hd, hu⟩ := hcomes.surfaces he Nat.one_pos rfl hd
    have hr₃ : m₃.running = (m₀.below source).running := hu.running.trans (hr₂.trans hr)
    obtain ⟨m₄, ht, hr₄, ha⟩ := takeUp_yields (hstart.trans hd) hr₃ (hr ▸ hs.unwound hu)
    refine ⟨m₄, ?_, hr₄, ha⟩
    rw [← ht, hres.resume_eq, takeUp_eq]
    rfl
  case resumed =>
    intro hh fuel inner k source re m m' n n' m₁ site f body args vs hm hsum hi hy hv hres hans
    obtain ⟨m₂, he, hr₂, hn₂, hf₂⟩ := hsum.answers hh hm hi hy hv
    obtain ⟨i, -, -, hsite, -⟩ := hsum.summoned
    obtain ⟨m₃, hc, hr₃, hn₃, hf₃⟩ := hans.resumed source host fuel hsite
    refine ⟨m₂, m₃, he, hr₂, hn₂, ?_, hr₃, hn₃, hf₂ ▸ hf₃⟩
    have hy : (m₁.thread.status == Status.yield) = true := beq_iff_eq.mpr hans.status
    have hx : attempt (continueCall (host.reentry fuel) vs.length) (m₁.resumed source) =
        attempt (host.dispatch fuel 1 none) m₃ := by rw [attempt, attempt, hc]
    rw [hres.resume_eq, hy, if_pos rfl, hx]

/-- A coroutine that is about to call the function that yields with 7, and wants one result. -/
def Machine.primed : Machine :=
  { Machine.new {} with
    functions := #[
      { body := .native (.builtin .yield) },
      { body := .bytecode { registers := 2, parameters := 2, code := #[.ofABC .call 0 2 2] } }]
    threads := #[{ isMain := true, parked := false, phase := .normal },
      { parked := false, frames := #[
        { window := #[.function ⟨1⟩, .function ⟨0⟩, .int 7], top := 3 }] }]
    running := ⟨1⟩ }

/-- The resumer gets 7 and leaves it where it is. The 9 that it brings along takes the place of the
function. -/
theorem Host.resumesCalls_primed : ∃ m₂ m₃ m₄ m₅ : Machine,
    resume (({} : Host).reentry 3) none 2 Machine.primed = .done (.yield, 1) m₂ ∧
      m₂.frame.values = [.function ⟨0⟩, .int 7, .int 7] ∧
      m₃ = m₂.modifyTop m₂.running (·.pushAll [.int 9]) ∧
      resume (({} : Host).reentry 3) none 1 m₃ =
        (attempt (({} : Host).dispatch 3 1 none) m₄).andThen (m₃.surrender none) ∧
      m₅.frame.Alike m₄.frame ∧ m₅.frame.values = [.int 9, .int 7] := by
  have hu := ({} : Host).resumesCalls
  have hh : ({} : Host).Honest := nofun
  have h₀ : Machine.primed.Resumable none 2 :=
    ⟨nofun, .inr ⟨by decide, by decide⟩, by decide⟩
  let re : Reentry := ⟨fun _ _ => exhausted, fun _ => returning [.int 9]⟩
  obtain ⟨m₁, i, m₁', m', n', m₅, he, hf, hs, hsum, hnat, hdepth, hi, hy, hvs, hcaller, h₅, hv₅⟩ :
      ∃ m i m₁ m' n' m₅,
        enter (({} : Host).reentry 3) 2 (-1) .host (Machine.primed.resumed none) = .done true m ∧
        fetch m = .done i m₁ ∧ i.callSite? = some (.call 0 2) ∧
        summon i m₁ = .done (⟨0⟩, [.int 7]) m' ∧
        (m'.functionAt ⟨0⟩).body = .native (.builtin .yield) ∧
        m'.frameCount ≤ m'.limits.callDepth ∧
        (({} : Host).reentry 2).invoke (.builtin .yield) (m'.begun (.call 0 2) ⟨0⟩ [.int 7]) =
          yielding 1 (m'.begun (.call 0 2) ⟨0⟩ [.int 7]) ∧
        yielding 1 (m'.begun (.call 0 2) ⟨0⟩ [.int 7]) = .raised .yield n' ∧
        (m'.begun (.call 0 2) ⟨0⟩ [.int 7]).frame.topValues 1 = [.int 7] ∧
        (m'.begun (.call 0 2) ⟨0⟩ [.int 7]).caller.values = [.function ⟨0⟩, .int 7] ∧
        Exec.execute re m = .done none m₅ ∧ m₅.frame.values = [.int 9, .int 7] :=
    ⟨_, _, _, _, _, _, rfl, rfl, rfl, rfl, rfl, by decide, rfl, rfl, rfl, rfl, rfl, rfl⟩
  have hsummons : m₁.Summons (.call 0 2) ⟨0⟩ (.builtin .yield) [.int 7] m' :=
    ⟨⟨i, m₁', hf, hs, hsum⟩, hnat, rfl, hdepth⟩
  obtain ⟨hstart, hE, hr, hp⟩ := hu.started hh (by decide) rfl rfl rfl he
  have hwalk : ReflTransGen (Point.Moves (({} : Host).reentry 2) 1) (.start m₁ none) (.running m₁) :=
    .refl
  obtain ⟨-, hruns⟩ := hu.runs hh hE hp hwalk
  obtain ⟨m₂, hx, hphase, hlimit⟩ : ∃ m₂, resume (({} : Host).reentry 3) none 2 Machine.primed =
      .done (.yield, 1) m₂ ∧ m₂.thread.phase = .suspended ∧ m₂.limits.nesting = 200 :=
    ⟨_, rfl, rfl, rfl⟩
  obtain ⟨m₂', hx', hr₂, ha⟩ := hu.received hh h₀ hstart (.here hwalk) hr hruns hsummons hi hy
    (by rw [hx]; nofun)
  obtain rfl : m₂ = m₂' := (Outcome.done.inj (hx.symm.trans hx')).2
  rw [hvs, ← hr₂] at ha
  have hans := ha.answers [.int 9]
  have hphase₃ : (m₂.modifyTop m₂.running (·.pushAll [.int 9])).thread.phase = .suspended := by
    have ht : (m₂.modifyTop m₂.running (·.pushAll [.int 9])).thread = _ :=
      m₂.threadAt_modifyTop ha.inner _
    rw [ht]
    exact hphase
  have h₃ : (m₂.modifyTop m₂.running (·.pushAll [.int 9])).Resumable none 1 := by
    refine ⟨fun h => ?_, .inl hans.status, ?_⟩
    · cases hphase₃.symm.trans h.2
    · change 1 < m₂.limits.nesting
      rw [hlimit]
      decide
  have hv : re.invoke (.builtin .yield) (m'.begun (.call 0 2) ⟨0⟩ [.int 7]) =
    returning [.int 9] (m'.begun (.call 0 2) ⟨0⟩ [.int 7]) := rfl
  obtain ⟨m₅', m₄, he₅, -, -, hx₃, -, -, hlike⟩ := hu.resumed hh hruns hsummons hi hy hv h₃ hans
  obtain rfl : m₅ = m₅' := (Outcome.done.inj (h₅.symm.trans he₅)).2
  refine ⟨m₂, _, m₄, m₅, hx, ?_, rfl, hx₃, hlike, hv₅⟩
  have hframe : m₂.frame = _ := ha.frame
  rw [hframe, Frame.values_pushAll, hcaller]
  rfl

end LuaMachine
