import LuaMachine.Proofs.Suspension.Lending

namespace LuaMachine

open Machine Exec Relation

variable {named : Bool} {chain : List ThreadId} {gone : ThreadId → Prop} {m m' : Machine}
  {s t : ThreadId} {nargs : Nat}

/-- If the running thread is put back to rest, the threads are in order. -/
def Condition.Lent (s : ThreadId) (named : Bool) (chain : List ThreadId) (gone : ThreadId → Prop) :
    Condition := fun r _ m =>
  (m.resting r s).roles.Ordered named (s :: chain) ∧ ∀ t, gone t → (m.roles t).phase = .dead

instance Condition.lent_onRoles : (Condition.Lent s named chain gone).OnRoles where
  congr {r _ _ m m'} h he := by
    have hr : (m'.resting r s).roles = (m.resting r s).roles := by
      funext x
      rw [roles_resting, roles_resting, he]
    rwa [Lent, hr, he]

structure Machine.Unparked (m : Machine) : Prop where
  parked : m.running.index < m.threads.size → m.thread.parked = false

theorem Machine.Resumable.there {source : Option ThreadId} (h : m.Resumable source nargs) :
    m.running.index < m.threads.size := by
  refine Nat.not_le.mp fun hc => ?_
  have ht : m.thread = default := threadAt_of_le hc
  rcases h.ready with hy | ⟨-, hn⟩
  · rw [ht] at hy
    cases hy
  · have hf : m.frame.top = 0 := by
      rw [frame, frameAt, threadAt_of_le hc]
      rfl
    omega

class Reentry.Orderly (re : Reentry) : Prop extends re.Genuine where
  invoke : ∀ named chain gone f, Keeps (Condition.Disciplined named chain gone) (re.invoke f)
  dispatch : ∀ named chain gone stop site,
    Keeps (Condition.Disciplined named chain gone) (re.dispatch stop site)

section Orderly

variable (re : Reentry) [hre : re.Orderly]

instance Exec.keeps_orderlyInvoke (f : Native) :
    Keeps (Condition.Disciplined named chain gone) (re.invoke f) := hre.invoke named chain gone f

instance Exec.keeps_orderlyDispatch (stop : Nat) (site : Option CallSite) :
    Keeps (Condition.Disciplined named chain gone) (re.dispatch stop site) :=
  hre.dispatch named chain gone stop site

instance Reentry.calls_orderly : re.Calls (Condition.Disciplined named chain gone) :=
  re.calls_framed inferInstance inferInstance

instance Reentry.starts_orderly : re.Starts (Condition.Disciplined named chain gone) :=
  re.starts_framed inferInstance inferInstance

/-- The running thread is resumed by the one that has taken it up. It runs on top of the others, and
then it is suspended or dead. -/
theorem Machine.Borrows.resume (h : m.Borrows s named chain) (hr : m.Resumable (some s) nargs) :
    Exec.resume re (some s) nargs m = .exhausted ∨
    ∃ status n m', Exec.resume re (some s) nargs m = .done (status, n) m' ∧ m'.running = m.running ∧
      m'.Borrows s named chain ∧
      (m'.roles m.running).phase = (if status = .yield then .suspended else .dead) ∧
      ∀ x, (m.roles x).phase = .dead → (m'.roles x).phase = .dead := by
  have halive : (m.roles m.running).phase ≠ .dead := fun hd => hr.alive ⟨h.isNamed h.ne_main, hd⟩
  let gone : ThreadId → Prop := fun x => (m.roles x).phase = .dead
  let body : Exec Unit :=
    if m.thread.status == .yield then continueCall re nargs else startBody re nargs
  -- the body runs with its resumer at the head of those that wait
  have hb : Keeps (Condition.Disciplined (m.naming s named) (s :: chain) gone) body := inferInstance
  have he := hb.endsIn (m.thread_resumed (some s)).1
    ⟨h.resumed, fun x hx => h.phase_resumed_dead halive hx⟩
  have hphase : ∀ result, settledPhase result =
      if settledStatus result = .yield then .suspended else .dead := by
    intro result
    cases result with
    | ok a => rfl
    | error e => cases e <;> rfl
  have settled : ∀ (result : Except Error Unit) {y m₂}, m₂.running = m.running →
      Condition.Disciplined (m.naming s named) (s :: chain) gone m.running y m₂ →
      ∃ status n m', m.surrender (some s) result m₂ = .done (status, n) m' ∧
        m'.running = m.running ∧ m'.Borrows s named chain ∧
        (m'.roles m.running).phase = (if status = .yield then .suspended else .dead) ∧
        ∀ x, (m.roles x).phase = .dead → (m'.roles x).phase = .dead := by
    intro result y m₂ hr₂ hd
    obtain ⟨n, m', hs, hrun, hb', hp, hdead⟩ := h.surrenders result hr₂ hd.1
    exact ⟨_, n, m', hs, hrun, hb', hphase result ▸ hp, fun x hx => hdead x (hd.2 x hx)⟩
  rw [hr.resume_eq]
  change (attempt body _).andThen _ = _ ∨ _
  cases hx : body (m.resumed (some s)) with
  | done a m₂ =>
    rw [hx] at he
    rw [run_attempt_done hx]
    exact .inr (settled (.ok a) he.1 he.2)
  | raised e m₂ =>
    rw [hx] at he
    rw [run_attempt_raised hx]
    exact .inr (settled (.error e) he.1 he.2)
  | exhausted =>
    rw [run_attempt_exhausted hx]
    exact .inl rfl

theorem Exec.ends_resumeLent (hu : m.Unparked)
    (h : Condition.Lent s named chain gone m.running false m) :
    (Exec.resume re (some s) nargs m).Ends (Condition.Lent s named chain gone) m.running := by
  by_cases hr : m.Resumable (some s) nargs
  · have hb : m.Borrows s named chain := ⟨hr.there, hu.parked hr.there, h.1⟩
    rcases hb.resume re hr with he | ⟨status, n, m', he, hrun, hb', -, hdead⟩
    · rw [he]
      trivial
    · rw [he]
      exact ⟨hrun, hrun ▸ hb'.order, fun x hx => hdead x (h.2 x hx)⟩
  · obtain ⟨reason, he | he⟩ := resume_refused re hr
    · rw [he]
      exact (keeps_refuse reason nargs).ends m h
    · rw [he]
      exact (keeps_refuse (K := Condition.Lent s named chain gone) reason nargs).endsIn rfl
        (Condition.OnRoles.congr h (roles_modify _ _ fun _ => rfl))

end Orderly

theorem Exec.ends_inThreadLent {α : Type} {x : Exec α}
    (h : Condition.Disciplined named chain gone m.running false m)
    (hx : ∀ m', m'.running = t → m'.Unparked → Condition.Lent m.running named chain gone t false m' →
      (x m').Ends (Condition.Lent m.running named chain gone) t) :
    (inThread t x m).Ends (Condition.Disciplined named chain gone) m.running := by
  have hroles : ∀ m' : Machine, ∀ x, ((m'.resting t m.running).roles x).phase = (m'.roles x).phase := by
    intro m' x
    rw [roles_resting]
    split <;> rfl
  refine ends_inThread h (fun hp => hx (m.taking t) rfl ⟨fun hth => ?_⟩ ⟨?_, fun x hg => ?_⟩)
    fun y m' _ hm' => ⟨hm'.1, fun x hg => (hroles m' x).trans (hm'.2 x hg)⟩
  · have hs : t.index < m.threads.size := Nat.lt_of_lt_of_eq hth (Array.size_modify ..)
    exact congrArg Thread.parked (m.threadAt_modify_there hs fun th => { th with parked := false })
  · rw [resting_taking m t m.running hp.parked]
    exact h.1
  · rw [← hroles, resting_taking m t m.running hp.parked]
    exact h.2 x hg

namespace Machine

def moved (m : Machine) (source target : ThreadId) (n : Nat) : Machine :=
  (m.modifyTop source (·.drop n)).modifyTop target (·.pushAll ((m.frameAt source).topValues n))

theorem run_moveBetween (source target : ThreadId) (n : Nat) :
    moveBetween source target n m = .done () (m.moved source target n) := rfl

theorem roles_moved (source target : ThreadId) (n : Nat) :
    (m.moved source target n).roles = m.roles :=
  (roles_modifyTop ..).trans (roles_modifyTop ..)

theorem Unparked.moved (h : m.Unparked) (source target : ThreadId) (n : Nat) :
    (m.moved source target n).Unparked where
  parked hth := by
    have hsize : (m.moved source target n).threads.size = m.threads.size :=
      (Array.size_modify ..).trans (Array.size_modify ..)
    have hp : (m.moved source target n).thread.parked = m.thread.parked :=
      congrArg Role.parked (congrFun (roles_moved source target n) m.running)
    exact hp.trans (h.parked (Nat.lt_of_lt_of_eq hth hsize))

end Machine

open Library.Coroutine in
instance Reentry.resumes_orderly (re : Reentry) [re.Orderly] :
    re.Resumes (Condition.Disciplined named chain gone) :=
  resumes_of_lent re fun {m} t nargs h => by
    refine ends_inThreadLent h fun m₁ hr hu hl => ?_
    rw [resumeLent, run_bind, checkStack, run_read, Outcome.andThen_done, run_ite]
    split
    · exact ⟨hr, hl⟩
    · rw [run_bind, run_moveBetween, Outcome.andThen_done]
      have hl₂ : Condition.Lent m.running named chain gone t false (m₁.moved m.running t nargs) :=
        Condition.OnRoles.congr hl (roles_moved m.running t nargs)
      rw [← hr] at hl₂ ⊢
      refine ends_andThen (ends_resumeLent re (hu.moved m.running m₁.running nargs) hl₂)
        fun p m₂ hr₂ hm₂ => ?_
      obtain ⟨status, k⟩ := p
      refine Keeps.endsIn ?_ hr₂ hm₂
      cases status <;> infer_instance

/-- Every resume is made by the running thread, and a thread that is not resumed does not run. -/
def Operation.Orderly : Operation → Prop
  | .call (.resume _ _ withSource) => withSource = true
  | .call (.resumeRunning _) => False
  | .within _ _ => False
  | .attempt operation => operation.Orderly
  | _ => True

def Host.Orderly (host : Host) : Prop := ∀ op ∈ host.operations, op.Orderly

namespace Exec

variable (re : Reentry) [re.Orderly]

theorem keeps_inThreadLent {x : ThreadId → Exec Reply}
    (hx : ∀ s m', m'.running = t → m'.Unparked → Condition.Lent s named chain gone t false m' →
      (x s m').Ends (Condition.Lent s named chain gone) t) :
    Keeps (Condition.Disciplined named chain gone)
      (read Machine.running >>= fun here => inThreadOrBusy t (x here)) where
  ends m h := by
    rw [run_bind, run_read, Outcome.andThen_done, inThreadOrBusy]
    exact ends_andThen (ends_inThreadLent h (hx m.running)) fun _ _ hr hm' => ⟨hr, hm'⟩

theorem keeps_performOrderly (op : Operation) (h : op.Orderly) :
    Keeps (Condition.Disciplined named chain gone) (perform re none op) := by
  match op with
  | .stack op => exact keeps_performStack op
  | .table op => exact keeps_performTable re op
  | .library op => exact keeps_performLibrary re op
  | .attempt op =>
    have ho := keeps_performOrderly op h
    unfold perform
    infer_instance
  | .call (.resume i n withSource) =>
    cases (show withSource = true from h)
    have hx (t : ThreadId) : Keeps (Condition.Disciplined named chain gone)
        (read Machine.running >>= fun here => inThreadOrBusy t (resumeReply re (some here) n)) :=
      keeps_inThreadLent fun s m' hr hu hl => by
        subst hr
        exact ends_andThen (ends_resumeLent re hu hl) fun p m₂ hr₂ hm₂ =>
          Keeps.endsIn inferInstance hr₂ hm₂
    change Keeps _ (withThreadAt i fun t =>
      read Machine.running >>= fun here => inThreadOrBusy t (resumeReply re (some here) n))
    infer_instance
  | .call (.moveTo i n) =>
    have hx (t : ThreadId) : Keeps (Condition.Disciplined named chain gone)
        (read Machine.running >>= fun here =>
          inThreadOrBusy t (silent (moveBetween here t n))) :=
      keeps_inThreadLent fun s m' hr _ hl => Keeps.endsIn inferInstance hr hl
    exact keeps_withThreadAt i _
  | .call (.moveFrom i n) =>
    have hx (t : ThreadId) : Keeps (Condition.Disciplined named chain gone)
        (read Machine.running >>= fun here =>
          inThreadOrBusy t (silent (moveBetween t here n))) :=
      keeps_inThreadLent fun s m' hr _ hl => Keeps.endsIn inferInstance hr hl
    exact keeps_withThreadAt i _
  | .call (.yield n) =>
    exact Condition.Yields.yields n
  | .call (.load _) | .call (.call ..) | .call (.pcall ..) | .call .error | .call (.fail _)
  | .call .depth | .call (.hasLevel _) | .call .limits | .call .newThread | .call (.threadState _)
  | .call .status | .call .isYieldable | .call .isMain =>
    unfold perform performCall
    infer_instance

end Exec

/-- Whatever a host runs keeps the threads in order, if its scripts do. -/
theorem Host.orderly_reentry {host : Host} (hh : host.Orderly) (fuel : Nat) :
    (host.reentry fuel).Orderly := by
  induction fuel with
  | zero =>
    exact ⟨fun _ _ _ _ => keeps_exhausted, fun _ _ _ _ _ => keeps_exhausted⟩
  | succ fuel ih =>
    exact ⟨fun _ _ _ f => host.keeps_scripts (host.reentry fuel)
        (fun op ho => keeps_performOrderly _ op (hh op ho)) f fun _ => inferInstance,
      fun _ _ _ stop site => keeps_dispatch (host.reentry fuel) fuel stop site⟩

end LuaMachine
