import LuaMachine.Proofs.Suspension.Order

/-!
The status of a thread. Exactly one thread is running at any time, and those are waiting that have
resumed it, at first or second hand. A thread lies in its handle if and only if it is suspended or dead.
Only a suspended one can be resumed; an attempt to resume another one comes to nothing but an error.
-/

namespace LuaMachine

open Machine Exec Relation

structure Thread.Alike (th th' : Thread) : Prop where
  rest : th' = { th with frames := th'.frames }
  size : th'.frames.size = th.frames.size
  frame : ∀ {i : Nat} {f f' : Frame}, th.frames[i]? = some f → th'.frames[i]? = some f' → f.Alike f'

namespace Thread.Alike

theorem refl (th : Thread) : th.Alike th where
  rest := rfl
  size := rfl
  frame h h' := by
    rw [h] at h'
    cases h'
    exact .refl _

theorem modifyFrames (th : Thread) (level : Nat) {g : Frame → Frame}
    (hg : ∀ f : Frame, f.Alike (g f)) :
    th.Alike { th with frames := LuaMachine.modifyFrames level g th.frames } where
  rest := rfl
  size := size_modifyFrames ..
  frame {i f f'} h h' := by
    simp only [LuaMachine.modifyFrames, Array.getElem?_modify, h, Option.map_some] at h'
    split at h'
    · cases h'
      exact hg f
    · cases h'
      exact .refl f

end Thread.Alike

theorem Frame.alike_drop_pushAll (f : Frame) (vs : List Value) :
    f.Alike ((f.pushAll vs).drop vs.length) := by
  have ht : (f.pushAll vs).top - vs.length = f.top := Nat.add_sub_cancel ..
  constructor
  · have hc : ((f.pushAll vs).drop vs.length).control =
        { f.control with top := (f.pushAll vs).top - vs.length } := rfl
    rw [hc, ht]
    rfl
  · rw [values_drop, ht, values_pushAll, ← f.length_values, List.take_left]

namespace Machine

variable {m : Machine} {s t : ThreadId} {named : Bool} {chain : List ThreadId} {nargs : Nat}

theorem threadAt_modifyTop_any (m : Machine) (t x : ThreadId) (g : Frame → Frame) :
    (m.modifyTop t g).threadAt x = if x = t ∧ t.index < m.threads.size then
      { m.threadAt x with
        frames := modifyFrames ((m.threadAt x).frames.size - 1) g (m.threadAt x).frames }
      else m.threadAt x := m.threadAt_modify t x _

/-- A thread that is at rest is taken up, its frame on top changes and so does that of the one which has
taken it up, and it is put back. -/
theorem threadAt_lent (hp : (m.threadAt t).parked = true) (ht : t ≠ s) (d g : Frame → Frame)
    (x : ThreadId) : ((((m.taking t).modifyTop s d).modifyTop t g).resting t s).threadAt x =
      ((m.modifyTop s d).modifyTop t g).threadAt x := by
  have hsize : ∀ (m' : Machine) y f, (m'.modifyTop y f).threads.size = m'.threads.size :=
    fun _ _ _ => Array.size_modify ..
  have hsize' : (m.taking t).threads.size = m.threads.size := Array.size_modify ..
  simp only [threadAt_resting, threadAt_modifyTop_any, threadAt_taking, hsize, hsize']
  by_cases hx : x = t
  · subst hx
    by_cases hi : x.index < m.threads.size
    · simp only [hi, ht, and_true, false_and, if_true, if_false, hp]
    · simp [hi, ht]
  · simp [hx]

end Machine

theorem Machine.there_of_dead {m : Machine} {t : ThreadId} (hd : (m.threadAt t).phase = .dead) :
    t.index < m.threads.size := Nat.not_le.mp fun hc => by
  rw [threadAt_of_le hc] at hd
  cases hd

theorem Machine.roles_taken {m : Machine} {t : ThreadId} (hd : (m.threadAt t).phase = .dead) :
    (m.taking t).roles t = { m.roles t with parked := false } := by
  rw [roles_taking, if_pos ⟨rfl, there_of_dead hd⟩]

theorem Roles.Ordered.dead {m : Machine} {t : ThreadId} {named : Bool} {chain : List ThreadId}
    (h : m.roles.Ordered named (m.running :: chain))
    (hp : (m.threadAt t).parked = true) (ht : (m.threadAt t).phase ≠ .suspended) :
    t ≠ m.running ∧ (m.threadAt t).isMain = false ∧ (m.threadAt t).phase = .dead := by
  have hout : t ∉ m.running :: chain := (h.parked t).mp hp
  refine ⟨fun he => hout (he ▸ List.mem_cons_self), Bool.eq_false_iff.mpr fun hm => ?_,
    (h.resting t hout).resolve_left ht⟩
  exact hout ((h.main t).mp hm ▸ h.mem_main)

theorem Exec.inThread_busy {α : Type} {m : Machine} {t : ThreadId} (x : Exec α)
    (hp : (m.threadAt t).parked = false) : inThread t x m = .done none m := by
  have hr : (m.threads[t.index]?).any Thread.parked = false := Bool.eq_false_iff.mpr fun hr =>
    Bool.false_ne_true (hp.symm.trans ((m.any_parked_iff t).mp hr).parked)
  rw [inThread, run_bind, run_read, Outcome.andThen_done, hr]
  rfl

theorem Exec.run_inThread {α : Type} {m m₁ : Machine} {t : ThreadId} {x : Exec α} {a : α}
    (hp : m.AtRest t) (hx : x (m.taking t) = .done a m₁) :
    inThread t x m = .done (some a) (m₁.resting t m.running) := by
  rw [inThread, run_bind, run_read, Outcome.andThen_done, (m.any_parked_iff t).mpr hp]
  change ((attempt x) (m.taking t)).andThen _ = _
  rw [run_attempt_done hx]
  rfl

namespace Library.Coroutine

variable {m : Machine} {s t : ThreadId} {named : Bool} {chain : List ThreadId} {nargs : Nat}

theorem resumeThread_busy (re : Reentry) (hp : (m.threadAt t).parked = false) :
    resumeThread re t nargs m = .done (.error (.ofString "cannot resume non-suspended coroutine"))
      (m.modifyTop m.running (·.drop nargs)) := by
  rw [resumeThread_eq, inThread_busy _ hp]
  rfl

theorem resume_dead (re : Reentry) (source : Option ThreadId) (nargs : Nat)
    (hn : m.isNamed m.running = true)
    (hd : m.thread.phase = .dead) : Exec.resume re source nargs m =
      .done (.runtimeError, 1) ((m.modifyTop m.running (·.drop nargs)).modifyTop m.running
        (·.push (.ofString "cannot resume dead coroutine"))) := by
  rw [Exec.resume_eq, if_pos (by rw [hn, hd]; rfl)]
  rfl

def refused (vs : List Value) (f : Frame) : Frame :=
  (((f.pushAll vs).drop vs.length).push (.ofString "cannot resume dead coroutine")).drop 1

theorem refused_alike (vs : List Value) (f : Frame) : f.Alike (refused vs f) :=
  (f.alike_drop_pushAll vs).trans (Frame.alike_drop_pushAll _ [_])

theorem resumeLent_dead (re : Reentry) (s : ThreadId) (hm : (m.roles m.running).isMain = false)
    (hd : (m.roles m.running).phase = .dead) (hk : nargs ≤ (m.frameAt s).top) :
    ∃ v d g, resumeLent re s m.running nargs m =
        .done (.error v) ((m.modifyTop s d).modifyTop m.running g) ∧
      (d = id ∨ d = (·.drop nargs)) ∧ ∀ f : Frame, f.Alike (g f) := by
  rw [resumeLent, run_bind, checkStack, run_read, Outcome.andThen_done, run_ite]
  split
  · exact ⟨_, id, id, by rw [modifyTop_id, modifyTop_id]; rfl, .inl rfl, Frame.Alike.refl⟩
  · generalize hm₁ : ((m.moved s m.running nargs).modifyTop m.running (·.drop nargs)).modifyTop m.running
      (·.push (.ofString "cannot resume dead coroutine")) = m₁
    have hrole : (m.moved s m.running nargs).roles m.running = m.roles m.running :=
      congrFun (roles_moved ..) m.running
    have hx : Exec.resume re (some s) nargs (m.moved s m.running nargs) =
        .done (.runtimeError, 1) m₁ := by
      rw [← hm₁]
      exact resume_dead re (some s) nargs
        (isNamed_of_isMain ((congrArg Role.isMain hrole).trans hm))
        ((congrArg Role.phase hrole).trans hd)
    have hrun : m₁.running = m.running := by
      rw [← hm₁]
      rfl
    have hlen : ((m.frameAt s).topValues nargs).length = nargs := Frame.length_topValues _ hk
    refine ⟨m₁.frame.peek, (·.drop nargs), refused ((m.frameAt s).topValues nargs), ?_, .inr rfl,
      refused_alike _⟩
    rw [run_bind, run_moveBetween, Outcome.andThen_done, run_bind, hx, Outcome.andThen_done]
    change Outcome.done _ (m₁.modifyTop m₁.running (·.drop 1)) = _
    rw [hrun, ← hm₁, moved, modifyTop_modifyTop, modifyTop_modifyTop, modifyTop_modifyTop]
    unfold refused
    rw [hlen]
    rfl

theorem resumeThread_dead (re : Reentry) (ht : t ≠ m.running) (hp : (m.threadAt t).parked = true)
    (hm : (m.threadAt t).isMain = false) (hd : (m.threadAt t).phase = .dead)
    (hk : nargs ≤ m.frame.top) :
    ∃ v d m', resumeThread re t nargs m = .done (.error v) m' ∧ m'.running = m.running ∧
      (d = id ∨ d = (·.drop nargs)) ∧
      ∀ x, ((m.modifyTop m.running d).threadAt x).Alike (m'.threadAt x) := by
  have hrole := roles_taken hd
  have hframe : (m.taking t).frameAt m.running = m.frame := by
    rw [frameAt, threadAt_taking, if_neg fun h => ht h.1.symm]
    rfl
  obtain ⟨v, d, g, hx, hdrop, hg⟩ := resumeLent_dead (m := m.taking t) re m.running
    ((congrArg Role.isMain hrole).trans hm) ((congrArg Role.phase hrole).trans hd) (hframe ▸ hk)
  have hx : resumeLent re m.running t nargs (m.taking t) =
    .done (.error v) (((m.taking t).modifyTop m.running d).modifyTop t g) := hx
  refine ⟨v, d, (((m.taking t).modifyTop m.running d).modifyTop t g).resting t m.running,
    by rw [resumeThread_eq, run_inThread ⟨there_of_dead hd, hp⟩ hx]; rfl, rfl, hdrop, fun x => ?_⟩
  rw [threadAt_lent hp ht, threadAt_modifyTop_any (m.modifyTop m.running d) t x g]
  by_cases hx : x = t ∧ t.index < (m.modifyTop m.running d).threads.size
  · rw [if_pos hx]
    exact .modifyFrames _ _ hg
  · rw [if_neg hx]
    exact .refl _

theorem resumeThread_refused (re : Reentry) (h : m.roles.Ordered named (m.running :: chain))
    (ht : (m.threadAt t).phase ≠ .suspended) (hk : nargs ≤ m.frame.top) :
    ∃ v d m', resumeThread re t nargs m = .done (.error v) m' ∧ m'.running = m.running ∧
      (d = id ∨ d = (·.drop nargs)) ∧
      ∀ x, ((m.modifyTop m.running d).threadAt x).Alike (m'.threadAt x) := by
  cases hp : (m.threadAt t).parked with
  | false => exact ⟨_, _, _, resumeThread_busy re hp, rfl, .inr rfl, fun x => .refl _⟩
  | true =>
    obtain ⟨hne, hm, hd⟩ := h.dead hp ht
    exact resumeThread_dead re hne hp hm hd hk

theorem resume_error (re : Reentry) {v : Value} {m' : Machine} (hc : checkThread m = .done t m)
    (hx : resumeThread re t (m.frame.top - 1) m = .done (.error v) m') :
    Coroutine.resume re m = .done 2 ((m'.modifyTop m'.running (·.push (.bool false))).modifyTop m'.running
      (·.push v)) := by
  rw [Coroutine.resume, run_bind, hc, Outcome.andThen_done, run_bind, run_top, Outcome.andThen_done,
    run_bind, hx, Outcome.andThen_done]
  rfl

theorem wrapped_error (re : Reentry) {v : Value} {m' : Machine}
    (hc : valueAt (upvalueIndex 1) m = .done (.thread t) m)
    (hx : resumeThread re t m.frame.top m = .done (.error v) m') :
    ∃ w, wrapped re m = .raised (.thrown w) m' := by
  rw [wrapped, run_bind, hc, Outcome.andThen_done]
  dsimp only
  rw [run_bind, run_top, Outcome.andThen_done, run_bind, hx, Outcome.andThen_done]
  cases v with
  | string s => exact ⟨_, rfl⟩
  | _ => exact ⟨_, rfl⟩

end Library.Coroutine

theorem Roles.Ordered.refused {m : Machine} {named : Bool} {chain : List ThreadId} {t : ThreadId}
    (re : Reentry) (nargs : Nat) (h : m.roles.Ordered named (m.running :: chain))
    (ht : (m.threadAt t).phase ≠ .suspended) :
    inThread t (resume re (some m.running) nargs) m = .done none m ∨
    ∃ m', inThread t (resume re (some m.running) nargs) m = .done (some (.runtimeError, 1)) m' ∧
      m'.running = m.running ∧
      ∀ x, m'.threadAt x = { m.threadAt x with frames := (m'.threadAt x).frames } ∧
        (m'.threadAt x).frames.size = (m.threadAt x).frames.size := by
  cases hp : (m.threadAt t).parked with
  | false => exact .inl (inThread_busy _ hp)
  | true =>
    obtain ⟨hne, hm, hd⟩ := h.dead hp ht
    have hrole := roles_taken hd
    let g : Frame → Frame :=
      (·.push (.ofString "cannot resume dead coroutine")) ∘ (·.drop nargs)
    have hx := Library.Coroutine.resume_dead (m := m.taking t) re (some m.running) nargs
      (isNamed_of_isMain ((congrArg Role.isMain hrole).trans hm))
      ((congrArg Role.phase hrole).trans hd)
    rw [modifyTop_modifyTop] at hx
    have hthread (x : ThreadId) : (((m.taking t).modifyTop t g).resting t m.running).threadAt x =
        if x = t ∧ t.index < m.threads.size then
          { m.threadAt x with
            frames := modifyFrames ((m.threadAt x).frames.size - 1) g (m.threadAt x).frames }
        else m.threadAt x := by
      have hlent := threadAt_lent hp hne id g x
      rw [modifyTop_id, modifyTop_id] at hlent
      rw [hlent, threadAt_modifyTop_any]
    refine .inr ⟨((m.taking t).modifyTop t g).resting t m.running,
      run_inThread ⟨there_of_dead hd, hp⟩ hx, rfl,
      fun x => ?_⟩
    rw [hthread x]
    split
    · exact ⟨rfl, size_modifyFrames ..⟩
    · exact ⟨rfl, rfl⟩

abbrev Machine.Discipline (m : Machine) (named : Bool) (chain : List ThreadId) : Condition :=
  .Disciplined named chain fun t => (m.roles t).phase = .dead

/-- How a machine keeps account of what its threads are doing. Each thread of the chain has been resumed
by the next one. A host is orderly if it resumes threads from the running one only, and runs none in
between. -/
structure Host.OrdersThreads (host : Host) : Prop where
  /-- The phase of a thread tells whether it is running, whether it waits, and whether somebody can take
  it up. The main thread is an exception if nothing referred to it any more when it resumed another one:
  then it stays marked as running. -/
  phases : ∀ {named : Bool} {chain : List ThreadId} {m : Machine},
    m.roles.Ordered named (m.running :: chain) → named = true ∨ chain = [] → ∀ t,
    ((m.threadAt t).phase = .running ↔ t = m.running) ∧
      ((m.threadAt t).phase = .normal ↔ t ∈ chain) ∧
      ((m.threadAt t).parked = true ↔ (m.threadAt t).phase = .suspended ∨ (m.threadAt t).phase = .dead)
  begins : ∀ (limits : Limits) (named : Bool),
    (Machine.new limits).roles.Ordered named [(Machine.new limits).running]
  session : ∀ {fuel : Nat} {limits : Limits} {library : Option Library} {operations : List Operation}
      (named : Bool), host.Orderly → (∀ op ∈ operations, op.Orderly) →
    (host.run fuel limits library operations).Ends ((Machine.new limits).Discipline named []) mainThread
  operation : ∀ {fuel : Nat} {op : Operation} {named : Bool} {chain : List ThreadId} {m : Machine},
    host.Orderly → op.Orderly → m.roles.Ordered named (m.running :: chain) →
    (perform (host.reentry fuel) none op m).Ends (m.Discipline named chain) m.running
  native : ∀ {fuel : Nat} {f : Native} {named : Bool} {chain : List ThreadId} {m : Machine},
    host.Orderly → m.roles.Ordered named (m.running :: chain) →
    (host.invoke fuel f m).Ends (m.Discipline named chain) m.running
  entered : ∀ {fuel nargs : Nat} {wanted : Int} {site : CallSite} {named : Bool}
      {chain : List ThreadId} {m : Machine},
    host.Orderly → m.roles.Ordered named (m.running :: chain) →
    (enter (host.reentry fuel) nargs wanted site m).Ends (m.Discipline named chain) m.running
  walk : ∀ {fuel stop : Nat} {p q : Point} {named : Bool} {chain : List ThreadId},
    host.Orderly → ReflTransGen (Point.Moves (host.reentry fuel) stop) p q →
    p.machine.roles.Ordered named (p.machine.running :: chain) →
    q.machine.running = p.machine.running ∧
      p.machine.Discipline named chain q.machine.running false q.machine
  loop : ∀ {fuel stop : Nat} {site : Option CallSite} {named : Bool} {chain : List ThreadId}
      {m : Machine}, host.Orderly → m.roles.Ordered named (m.running :: chain) →
    (host.dispatch fuel stop site m).Ends (m.Discipline named chain) m.running
  taken : ∀ {named : Bool} {chain : List ThreadId} {m : Machine} {t : ThreadId},
    m.roles.Ordered named (m.running :: chain) → t.index < m.threads.size →
    (m.threadAt t).parked = true → (m.taking t).Borrows m.running named chain
  resumed : ∀ {s : ThreadId} {named : Bool} {chain : List ThreadId} {m : Machine},
    m.Borrows s named chain →
    (m.resumed (some s)).running = m.running ∧
      (m.resumed (some s)).roles.Ordered (m.naming s named) (m.running :: s :: chain)
  body : ∀ {fuel nargs : Nat} {s : ThreadId} {m : Machine}, m.Resumable (some s) nargs →
    resume (host.reentry fuel) (some s) nargs m =
      (attempt (if m.thread.status == .yield then continueCall (host.reentry fuel) nargs
        else startBody (host.reentry fuel) nargs) (m.resumed (some s))).andThen (m.surrender (some s))
  /-- The main thread has a name as long as the registry holds it. -/
  naming : ∀ {s : ThreadId} {named : Bool} {m : Machine},
    ((m.table m.registry).getInt mainThreadKey).rawEq (.thread mainThread) = true →
    s = mainThread ∨ named = true → m.naming s named = true
  /-- The thread that has been resumed is suspended if it yields, else dead, and can be put back; the one
  that has resumed it goes on. Who was dead still is. -/
  settled : ∀ {fuel nargs : Nat} {s : ThreadId} {named : Bool} {chain : List ThreadId} {m : Machine},
    host.Orderly → m.Borrows s named chain → m.Resumable (some s) nargs →
    resume (host.reentry fuel) (some s) nargs m = .exhausted ∨
    ∃ status n m', resume (host.reentry fuel) (some s) nargs m = .done (status, n) m' ∧
      m'.running = m.running ∧ m'.Borrows s named chain ∧
      (m'.roles m.running).phase = (if status = .yield then .suspended else .dead) ∧
      ∀ x, (m.roles x).phase = .dead → (m'.roles x).phase = .dead
  /-- An attempt to resume a thread that is not suspended has an error value as its result. The running
  thread may have lost the arguments; that is all. -/
  refused : ∀ {fuel nargs : Nat} {named : Bool} {chain : List ThreadId} {m : Machine} {t : ThreadId},
    m.roles.Ordered named (m.running :: chain) → (m.threadAt t).phase ≠ .suspended →
    nargs ≤ m.frame.top →
    ∃ v d m', Library.Coroutine.resumeThread (host.reentry fuel) t nargs m = .done (.error v) m' ∧
      m'.running = m.running ∧ (d = id ∨ d = (·.drop nargs)) ∧
      ∀ x, ((m.modifyTop m.running d).threadAt x).Alike (m'.threadAt x)
  answered : ∀ {fuel : Nat} {m m' : Machine} {t : ThreadId} {v : Value},
    Library.Coroutine.checkThread m = .done t m →
    Library.Coroutine.resumeThread (host.reentry fuel) t (m.frame.top - 1) m = .done (.error v) m' →
    Library.Coroutine.resume (host.reentry fuel) m =
      .done 2 ((m'.modifyTop m'.running (·.push (.bool false))).modifyTop m'.running (·.push v))
  raised : ∀ {fuel : Nat} {m m' : Machine} {t : ThreadId} {v : Value},
    valueAt (upvalueIndex 1) m = .done (.thread t) m →
    Library.Coroutine.resumeThread (host.reentry fuel) t m.frame.top m = .done (.error v) m' →
    ∃ w, Library.Coroutine.wrapped (host.reentry fuel) m = .raised (.thrown w) m'
  refusedHost : ∀ {fuel nargs : Nat} {named : Bool} {chain : List ThreadId} {m : Machine} {t : ThreadId},
    m.roles.Ordered named (m.running :: chain) → (m.threadAt t).phase ≠ .suspended →
    inThread t (resume (host.reentry fuel) (some m.running) nargs) m = .done none m ∨
    ∃ m', inThread t (resume (host.reentry fuel) (some m.running) nargs) m =
        .done (some (.runtimeError, 1)) m' ∧ m'.running = m.running ∧
      ∀ x, m'.threadAt x = { m.threadAt x with frames := (m'.threadAt x).frames } ∧
        (m'.threadAt x).frames.size = (m.threadAt x).frames.size

/-- The threads of a machine are in order at any time. -/
theorem Host.ordersThreads (host : Host) : host.OrdersThreads := by
  constructor
  case phases => exact fun h hn t => h.phases hn t
  case begins => exact fun limits named => .new limits named
  case session =>
    intro fuel limits library operations named hh ho
    have := host.orderly_reentry hh fuel
    exact host.ends_session fuel limits library ⟨.new limits named, fun _ hx => hx⟩ fun op hop =>
      keeps_performOrderly (host.reentry fuel) op (ho op hop)
  case operation =>
    intro fuel op named chain m hh ho h
    have := host.orderly_reentry hh fuel
    exact (keeps_performOrderly (host.reentry fuel) op ho).ends m ⟨h, fun _ hx => hx⟩
  case native =>
    intro fuel f named chain m hh h
    exact ((host.orderly_reentry hh fuel).invoke named chain _ f).ends m ⟨h, fun _ hx => hx⟩
  case entered =>
    intro fuel nargs wanted site named chain m hh h
    have := host.orderly_reentry hh fuel
    exact (keeps_framedEnter (host.reentry fuel) nargs wanted site).ends m ⟨h, fun _ hx => hx⟩
  case walk =>
    intro fuel stop p q named chain hh hw h
    have := host.orderly_reentry hh fuel
    exact Point.walk_keepsIn (K := .Disciplined named chain _) hw ⟨h, fun _ hx => hx⟩
  case loop =>
    intro fuel stop site named chain m hh h
    exact ((host.orderly_reentry hh fuel).dispatch named chain _ stop site).ends m ⟨h, fun _ hx => hx⟩
  case taken =>
    intro named chain m t h hth hp
    refine ⟨Nat.lt_of_lt_of_eq hth (Array.size_modify ..).symm, ?_, ?_⟩
    · exact congrArg Thread.parked ((m.threadAt_taking t t).trans (if_pos ⟨rfl, hth⟩))
    · exact (m.resting_taking t m.running hp).symm ▸ h
  case resumed => exact fun h => ⟨(thread_resumed _ _).1, h.resumed⟩
  case body => exact fun hr => hr.resume_eq _
  case naming =>
    intro s named m hreg hs
    unfold Machine.naming
    split
    · next he =>
      have hreg : (((m.below (some s)).table (m.below (some s)).registry).getInt mainThreadKey).rawEq
          (.thread s) = true := he ▸ hreg
      rw [Machine.isNamed, hreg, Bool.or_true, Bool.true_or]
    · next hne => exact hs.resolve_left hne
  case settled =>
    intro fuel nargs s named chain m hh h hr
    have := host.orderly_reentry hh fuel
    exact h.resume (host.reentry fuel) hr
  case refused => exact fun h ht hk => Library.Coroutine.resumeThread_refused _ h ht hk
  case answered => exact fun hc hx => Library.Coroutine.resume_error _ hc hx
  case raised => exact fun hc hx => Library.Coroutine.wrapped_error _ hc hx
  case refusedHost =>
    intro fuel nargs named chain m t h ht
    exact h.refused _ nargs ht

def Machine.paired : Machine :=
  { Machine.new {} with
    functions := #[{ body := .native (.builtin .yield) }]
    threads := #[{ isMain := true, parked := false, phase := .running },
      { frames := #[{ window := #[.function ⟨0⟩], top := 1 }] }] }

/-- The main thread resumes the coroutine, which yields at once and can be put back. The main thread
cannot be resumed itself. -/
theorem Host.ordersThreads_paired :
    ({} : Host).Orderly ∧ Machine.paired.roles.Ordered true [mainThread] ∧
      (Machine.paired.taking ⟨1⟩).Resumable (some mainThread) 0 ∧
      ((Machine.paired.taking ⟨1⟩).resumed (some mainThread)).roles.Ordered true [⟨1⟩, mainThread] ∧
      (∃ m', resume (({} : Host).reentry 3) (some mainThread) 0 (Machine.paired.taking ⟨1⟩) =
          .done (.yield, 0) m' ∧ (m'.roles ⟨1⟩).phase = .suspended ∧ m'.Borrows mainThread true []) ∧
      (Machine.paired.threadAt mainThread).phase ≠ .suspended ∧ 0 ≤ Machine.paired.frame.top ∧
      ∃ v m', Library.Coroutine.resumeThread (({} : Host).reentry 3) mainThread 0 Machine.paired =
        .done (.error v) m' := by
  have hu := Host.ordersThreads {}
  have hh : ({} : Host).Orderly := nofun
  have hroles : Machine.paired.roles = (Machine.new {}).roles := by
    funext t
    match t with
    | ⟨0⟩ | ⟨1⟩ | ⟨_ + 2⟩ => rfl
  have ho : Machine.paired.roles.Ordered true [mainThread] := hroles ▸ hu.begins {} true
  have hb := hu.taken (t := ⟨1⟩) ho (by decide) rfl
  have hr : (Machine.paired.taking ⟨1⟩).Resumable (some mainThread) 0 :=
    ⟨nofun, .inr ⟨by decide, by decide⟩, by decide⟩
  have hn : (Machine.paired.taking ⟨1⟩).naming mainThread true = true :=
    hu.naming rfl (.inl rfl)
  have hx : ∃ m', resume (({} : Host).reentry 3) (some mainThread) 0 (Machine.paired.taking ⟨1⟩) =
      .done (.yield, 0) m' := ⟨_, rfl⟩
  refine ⟨hh, ho, hr, hn ▸ (hu.resumed hb).2, ?_, nofun, Nat.zero_le _, ?_⟩
  · obtain ⟨m', hx⟩ := hx
    have hs : resume (({} : Host).reentry 3) _ _ _ = .exhausted ∨ _ := hu.settled hh hb hr
    rcases hs with he | ⟨status, n, m₁, he, -, hb', hp, -⟩
    · cases he.symm.trans hx
    · cases hx.symm.trans he
      exact ⟨m', hx, hp, hb'⟩
  · obtain ⟨v, -, m', he, -⟩ := hu.refused (t := mainThread) ho nofun (Nat.zero_le _)
    exact ⟨v, m', he⟩

end LuaMachine
