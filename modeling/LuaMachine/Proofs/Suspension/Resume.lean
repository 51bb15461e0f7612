import LuaMachine.Proofs.Suspension.Surface

namespace LuaMachine

open Machine Exec

namespace Machine

def withPhase (m : Machine) (t : ThreadId) (phase : Phase) : Machine :=
  { m with threads := m.threads.modify t.index fun th => { th with phase } }

def waiting (m : Machine) : Option ThreadId → Machine
  | some s => m.withPhase s .normal
  | none => m

def takenUp (m : Machine) (source : Option ThreadId) (named : Bool) : Machine :=
  let source := source.filter m.isNamed
  let m₁ := m.waiting source
  let m₂ := if named then m₁.withPhase m.running .running else m₁
  { m₂ with
    threads := m₂.threads.modify m.running.index fun th => { th with hostCalls := 0, status := .ok }
    held := (source.toList ++ if named then [m.running] else []).map .thread ++ m.held }

variable {m : Machine}

def ending (m : Machine) (us : Array Upvalue) (g : Thread → Thread) : Machine :=
  { m with upvalues := us, threads := m.threads.modify m.running.index g }

theorem thread_ending (h : m.running.index < m.threads.size) (us : Array Upvalue)
    (g : Thread → Thread) : (m.ending us g).thread = g m.thread :=
  ({ m with upvalues := us } : Machine).threadAt_modify_there h g

def released (m : Machine) (source : Option ThreadId) (self : ThreadId) (named : Bool)
    (phase : Phase) : Machine :=
  let m₁ := if named then m.withPhase self phase else m
  match source with
  | none => m₁
  | some s => m₁.withPhase s .running

theorem fields_released {α : Type} (p : Thread → α) (m : Machine) (source : Option ThreadId)
    (self : ThreadId) (named : Bool) (phase : Phase) (t : ThreadId)
    (hp : ∀ th phase, p { th with phase } = p th) :
    p ((m.released source self named phase).threadAt t) = p (m.threadAt t) := by
  have hph : ∀ (m : Machine) s phase, p ((m.withPhase s phase).threadAt t) = p (m.threadAt t) :=
    fun m s phase => fields_modify p m s t fun th => hp th phase
  cases source with
  | none =>
    cases named with
    | false => rfl
    | true => exact hph ..
  | some s =>
    cases named with
    | false => exact hph ..
    | true => exact (hph ..).trans (hph ..)

theorem running_released (m : Machine) (source : Option ThreadId) (self : ThreadId) (named : Bool)
    (phase : Phase) : (m.released source self named phase).running = m.running := by
  cases source <;> cases named <;> rfl

/-- A thread has yielded and is at rest, with the values for the resumer on top. -/
structure Awaits (m : Machine) (t : ThreadId) (f : Frame) (site : CallSite) (wanted : Int)
    (vs : List Value) : Prop where
  inner : 1 < (m.threadAt t).frames.size
  frame : m.frameAt t = f.pushAll vs
  pending : (m.threadAt t).pending = some { site, wanted, base := f.top }
  status : (m.threadAt t).status = .yield

variable {t : ThreadId} {f : Frame} {site : CallSite} {wanted : Int} {vs : List Value}

theorem Awaits.withPhase (h : m.Awaits t f site wanted vs) (t' : ThreadId) (phase : Phase) :
    (m.withPhase t' phase).Awaits t f site wanted vs := by
  have hth : ∃ ph, (m.withPhase t' phase).threadAt t = { m.threadAt t with phase := ph } := by
    rw [Machine.withPhase, threadAt_modify]
    split
    · exact ⟨_, rfl⟩
    · exact ⟨_, rfl⟩
  obtain ⟨ph, hth⟩ := hth
  refine ⟨?_, ?_, ?_, ?_⟩
  · rw [hth]
    exact h.inner
  · unfold frameAt
    rw [hth]
    exact h.frame
  · rw [hth]
    exact h.pending
  · rw [hth]
    exact h.status

end Machine

namespace Exec

variable {m m₁ : Machine} {t : ThreadId} {f : Frame} {site : CallSite} {wanted : Int}
  {vs : List Value}

theorem settleResume_yields (hs : m.Suspends m.running f site wanted vs) :
    ∃ m', settleResume (.error .yield) m = .done (.yield, vs.length, .suspended) m' ∧
      m'.running = m.running ∧ m'.Awaits m.running f site wanted vs := by
  have htrans : m.thread.transfer = vs := hs.transfer
  have hth := m.threadAt_modify_self hs.inner fun th => { th with status := .yield, transfer := [] }
  generalize hm : ({ m with threads := m.threads.modify m.running.index fun th =>
    { th with status := .yield, transfer := [] } } : Machine) = m₁ at hth
  have hr : m₁.running = m.running := by rw [← hm]
  have hone : 1 < (m₁.threadAt m.running).frames.size := by
    rw [hth]
    exact hs.inner
  have hf : m₁.frameAt m.running = f := by
    unfold frameAt
    rw [hth]
    exact hs.frame
  refine ⟨m₁.modifyTop m.running (·.pushAll vs), ?_, hr, ?_, ?_, ?_, ?_⟩
  · rw [← htrans, ← hm]
    rfl
  · rw [size_modifyTop]
    exact hone
  · rw [frameAt_modifyTop_self hone, hf]
  · rw [m₁.threadAt_modifyTop hone, hth]
    exact hs.pending
  · rw [m₁.threadAt_modifyTop hone, hth]

def settledPhase : Except Error Unit → Phase
  | .error .yield => .suspended
  | _ => .dead

def settledStatus : Except Error Unit → Status
  | .ok () => .ok
  | .error e => e.status

/-- What the end of a resume does to the thread, besides its frames. -/
structure Settling (result : Except Error Unit) (g : Thread → Thread) : Prop where
  parked : ∀ th, (g th).parked = th.parked
  phase : ∀ th, (g th).phase = th.phase
  isMain : ∀ th, (g th).isMain = th.isMain
  hostCalls : ∀ th, (g th).hostCalls = th.hostCalls
  status : ∀ th, (g th).status = match result with
    | .ok () => th.status
    | .error e => e.status
  pending : ∀ th, (g th).pending = match result with
    | .ok () => th.pending
    | .error e => if e = .yield then th.pending else none

theorem settleResume_failed {e : Error} (he : e ≠ .yield) (m : Machine) :
    ∃ us g, settleResume (.error e) m = .done (e.status, 1, .dead) (m.ending us g) ∧
      Settling (.error e) g := by
  obtain ⟨us, -, hcut⟩ := run_truncateFrames (max 1 1) { m with
    threads := m.threads.modify m.running.index fun th => { th with status := e.status } }
  let fail (th : Thread) : Thread :=
    let cut := th.frames.take 1
    let emptied := modifyFrames (cut.size - 1) (·.setTop 0) cut
    { th with
      status := e.status
      pending := none
      frames := modifyFrames (emptied.size - 1) (·.push e.toValue) emptied }
  have hx : settleResume (.error e) m = ((do
      modifyThread fun t => { t with status := e.status }
      unwindTo 1
      modifyThread fun t => { t with pending := none }
      modifyFrame (·.setTop 0)
      push e.toValue
      return (e.status, 1, .dead) : Exec (Status × Nat × Phase)) m) := by
    cases e with
    | yield => exact absurd rfl he
    | _ => rfl
  refine ⟨us, fail, ?_, fun _ => rfl, fun _ => rfl, fun _ => rfl, fun _ => rfl, fun _ => rfl,
    fun _ => (if_neg he).symm⟩
  rw [hx, run_bind, run_modifyThread, Outcome.andThen_done, run_bind, unwindTo, hcut]
  simp only [run_bind, run_modifyThread, Outcome.andThen_done, run_modifyFrame, run_push, run_pure,
    modifyTop, cut, modify_modify]
  rfl

theorem run_settleResume (result : Except Error Unit) (m : Machine) :
    ∃ n us g, settleResume result m =
        .done (settledStatus result, n, settledPhase result) (m.ending us g) ∧ Settling result g := by
  cases result with
  | ok a =>
    have hs : settleResume (.ok a) m = .done (.ok, m.frame.top, .dead) m := rfl
    refine ⟨m.frame.top, m.upvalues, id, ?_, fun _ => rfl, fun _ => rfl, fun _ => rfl, fun _ => rfl,
      fun _ => rfl, fun _ => rfl⟩
    rw [hs, ending, m.modify_same m.running rfl]
    rfl
  | error e =>
    by_cases he : e = .yield
    · subst he
      refine ⟨m.thread.transfer.length, m.upvalues, fun th => { th with
        status := .yield
        transfer := []
        frames := modifyFrames (th.frames.size - 1) (·.pushAll m.thread.transfer) th.frames }, ?_,
        fun _ => rfl, fun _ => rfl, fun _ => rfl, fun _ => rfl, fun _ => rfl,
        fun _ => (if_pos rfl).symm⟩
      change Outcome.done _ (modifyTop _ _ _) = _
      simp only [modifyTop, modify_modify]
      rfl
    · obtain ⟨us, g, hs, hg⟩ := settleResume_failed he m
      refine ⟨1, us, g, hs.trans ?_, hg⟩
      cases e with
      | yield => exact absurd rfl he
      | _ => rfl

/-- Keeps what an earlier machine has kept, and no more. -/
def letGo (m : Machine) : Exec Unit := modify fun m' => { m' with held := m.held }

theorem attempt_holding {α : Type} (vs : List Value) (x : Exec α) (m : Machine) :
    attempt (holding vs x) m =
      (attempt x { m with held := vs ++ m.held }).andThen fun result => (fun _ => result) <$> letGo m := by
  have hh : holding vs x m =
      (attempt x { m with held := vs ++ m.held }).andThen fun r => letGo m >>= fun _ => ofExcept r := rfl
  cases he : x { m with held := vs ++ m.held } with
  | done a m' =>
    rw [run_attempt_done he] at hh ⊢
    exact run_attempt_done hh
  | raised e m' =>
    rw [run_attempt_raised he] at hh ⊢
    exact run_attempt_raised hh
  | exhausted =>
    rw [run_attempt_exhausted he] at hh ⊢
    exact run_attempt_exhausted hh

def endResume (source : Option ThreadId) (self : ThreadId) (named : Bool)
    (result : Except Error Unit) : Exec (Status × Nat) := do
  let (status, n, phase) ← settleResume result
  if named then setPhase self phase
  source.forM (setPhase · .running)
  return (status, n)

theorem run_endResume {source : Option ThreadId} {self : ThreadId} {named : Bool}
    {result : Except Error Unit} {status : Status} {n : Nat} {phase : Phase}
    (hs : settleResume result m = .done (status, n, phase) m₁) :
    endResume source self named result m =
      .done (status, n) (m₁.released source self named phase) := by
  unfold endResume
  rw [run_bind, hs, Outcome.andThen_done]
  cases source <;> cases named <;> rfl

theorem takeUp_eq (re : Reentry) (source : Option ThreadId) (nargs : Nat) (named resuming : Bool)
    (m : Machine) : takeUp re source nargs m.running named resuming m =
      (attempt (if resuming = true then continueCall re nargs else startBody re nargs)
        (m.takenUp source named)).andThen fun result => letGo m >>= fun _ =>
          endResume (source.filter m.isNamed) m.running named result := by
  have hcase (m₁ : Machine) (vs : List Value) (x : Exec Unit)
      (k : Except Error Unit → Exec (Status × Nat)) : (attempt (holding vs x) m₁).andThen k =
      (attempt x { m₁ with held := vs ++ m₁.held }).andThen fun r => letGo m₁ >>= fun _ => k r := by
    rw [attempt_holding, andThen_andThen]
    rfl
  unfold takeUp takenUp
  rw [run_bind, run_read, Outcome.andThen_done]
  generalize source.filter m.isNamed = source'
  cases source' with
  | none =>
    cases named with
    | false => exact hcase _ _ _ _
    | true => exact hcase _ _ _ _
  | some s =>
    cases named with
    | false => exact hcase _ _ _ _
    | true => exact hcase _ _ _ _

theorem endResume_yields (source : Option ThreadId) (named : Bool)
    (hs : m.Suspends m.running f site wanted vs) :
    ∃ m', endResume source m.running named (.error .yield) m = .done (.yield, vs.length) m' ∧
      m'.running = m.running ∧ m'.Awaits m.running f site wanted vs := by
  obtain ⟨m₁, he, hr, ha⟩ := settleResume_yields hs
  have hphase : ∃ m₂, (if named = true then setPhase m.running .suspended else pure ()) m₁ =
      .done () m₂ ∧ m₂.running = m.running ∧ m₂.Awaits m.running f site wanted vs := by
    cases named with
    | false => exact ⟨m₁, rfl, hr, ha⟩
    | true => exact ⟨m₁.withPhase m.running .suspended, rfl, hr, ha.withPhase ..⟩
  obtain ⟨m₂, hp, hr₂, ha₂⟩ := hphase
  have he₂ : endResume source m.running named (.error .yield) m =
      (source.forM (setPhase · .running) >>= fun _ => pure (.yield, vs.length)) m₂ := by
    unfold endResume
    rw [run_bind, he, Outcome.andThen_done]
    cases named with
    | false =>
      cases hp
      rfl
    | true =>
      cases hp
      rfl
  rw [he₂]
  cases source with
  | none => exact ⟨m₂, rfl, hr₂, ha₂⟩
  | some s => exact ⟨m₂.withPhase s .running, rfl, hr₂, ha₂.withPhase ..⟩

theorem takeUp_yields {re : Reentry} {source : Option ThreadId} {nargs : Nat} {named resuming : Bool}
    (hx : (if resuming = true then continueCall re nargs else startBody re nargs)
      (m.takenUp source named) = .raised .yield m₁) (hr : m₁.running = m.running)
    (hs : m₁.Suspends m.running f site wanted vs) :
    ∃ m', takeUp re source nargs m.running named resuming m = .done (.yield, vs.length) m' ∧
      m'.running = m.running ∧ m'.Awaits m.running f site wanted vs := by
  have hs₁ : ({ m₁ with held := m.held } : Machine).Suspends m₁.running f site wanted vs := by
    rw [hr]
    exact ⟨hs.inner, hs.frame, hs.pending, hs.transfer⟩
  obtain ⟨m', he, hr', ha⟩ := endResume_yields (source.filter m.isNamed) named hs₁
  refine ⟨m', ?_, hr'.trans hr, hr ▸ ha⟩
  rw [takeUp_eq, run_attempt_raised hx, Outcome.andThen_done, ← hr]
  exact he

end Exec
end LuaMachine
