import LuaMachine.Proofs.Suspension.Barrier
import LuaMachine.Proofs.Suspension.Roles

namespace LuaMachine

open Machine Exec

def Condition.Disciplined (named : Bool) (chain : List ThreadId) (gone : ThreadId → Prop) :
    Condition := fun r _ m => m.roles.Ordered named (r :: chain) ∧ ∀ t, gone t → (m.roles t).phase = .dead

instance Condition.disciplined_onRoles {named : Bool} {chain : List ThreadId}
    {gone : ThreadId → Prop} : (Condition.Disciplined named chain gone).OnRoles where
  congr h he := by
    rwa [Disciplined, he]

namespace Machine

variable {m m' : Machine} {s t : ThreadId} {named : Bool} {chain : List ThreadId}
  {gone : ThreadId → Prop} {nargs : Nat} {source : Option ThreadId}

/-- The running thread has been taken up by another one, which lets it run without having resumed it. -/
structure Borrows (m : Machine) (s : ThreadId) (named : Bool) (chain : List ThreadId) : Prop where
  there : m.running.index < m.threads.size
  parked : m.thread.parked = false
  order : (m.resting m.running s).roles.Ordered named (s :: chain)

def naming (m : Machine) (s : ThreadId) (named : Bool) : Bool :=
  if s = mainThread then (m.below (some s)).isNamed s else named

theorem threadAt_resting (m : Machine) (t s x : ThreadId) : (m.resting t s).threadAt x =
    if x = t ∧ t.index < m.threads.size then { m.threadAt x with parked := true }
    else m.threadAt x := m.threadAt_modify t x _

theorem threadAt_taking (m : Machine) (t x : ThreadId) : (m.taking t).threadAt x =
    if x = t ∧ t.index < m.threads.size then { m.threadAt x with parked := false }
    else m.threadAt x := m.threadAt_modify t x _

theorem roles_resting (m : Machine) (t s x : ThreadId) : (m.resting t s).roles x =
    if x = t then { m.roles x with parked := true } else m.roles x := by
  rw [roles, threadAt_resting]
  by_cases ht : x = t
  · by_cases hs : t.index < m.threads.size
    · rw [if_pos ⟨ht, hs⟩, if_pos ht]
      rfl
    · rw [if_neg fun h => hs h.2, if_pos ht, ht, roles, threadAt_of_le (Nat.le_of_not_lt hs)]
      rfl
  · rw [if_neg fun h => ht h.1, if_neg ht]
    rfl

theorem roles_resting_ne {x : ThreadId} (hx : x ≠ t) : (m.resting t s).roles x = m.roles x := by
  rw [roles_resting, if_neg hx]

theorem roles_taking (m : Machine) (t x : ThreadId) : (m.taking t).roles x =
    if x = t ∧ t.index < m.threads.size then { m.roles x with parked := false } else m.roles x := by
  rw [roles, threadAt_taking, apply_ite Thread.role]
  rfl

theorem resting_taking (m : Machine) (t s : ThreadId) (hp : (m.threadAt t).parked = true) :
    ((m.taking t).resting t s).roles = m.roles := by
  funext x
  rw [roles_resting, roles_taking]
  by_cases hx : x = t
  · subst hx
    have hr : { m.roles x with parked := true } = m.roles x := by
      rw [roles, Thread.role, hp]
    by_cases hs : x.index < m.threads.size
    · rw [if_pos rfl, if_pos ⟨rfl, hs⟩]
      exact hr
    · rw [if_pos rfl, if_neg fun h => hs h.2]
      exact hr
  · rw [if_neg hx, if_neg fun h => hx h.1]

theorem there_of_unparked (h : (m.roles t).parked = false) : t.index < m.threads.size := by
  refine Nat.not_le.mp fun hc => ?_
  rw [roles, threadAt_of_le hc] at h
  cases h

theorem phase_withPhase (m : Machine) (t x : ThreadId) (phase : Phase) :
    ((m.withPhase t phase).roles x).phase =
      if x = t ∧ t.index < m.threads.size then phase else (m.roles x).phase := by
  have hx : ((m.withPhase t phase).roles x).phase = (if x = t ∧ t.index < m.threads.size then
      { m.threadAt x with phase } else m.threadAt x).phase :=
    congrArg Thread.phase (m.threadAt_modify t x fun th => { th with phase })
  rw [hx, apply_ite Thread.phase]
  rfl

theorem phase_resumed (ht : m.running.index < m.threads.size) (hn : m.isNamed m.running = true)
    (hs : s.index < m.threads.size) (x : ThreadId) :
    ((m.resumed (some s)).roles x).phase = if x = m.running then .running
      else if x = s ∧ (m.below (some s)).isNamed s = true then .normal else (m.roles x).phase := by
  have hb : ((m.below (some s)).roles x).phase = (m.roles x).phase :=
    fields_modify Thread.phase m m.running x fun _ => rfl
  have hsize : (m.below (some s)).threads.size = m.threads.size := Array.size_modify ..
  rw [resumed, hn]
  generalize hm : m.below (some s) = m₁ at hb hsize
  have hr : m₁.running = m.running := by rw [← hm, below]
  unfold takenUp
  dsimp only
  rw [if_pos rfl]
  have hmod : ∀ (m₂ : Machine) (held : List Value),
      (({ m₂ with
        threads := m₂.threads.modify m₁.running.index fun th => { th with hostCalls := 0, status := .ok }
        held } : Machine).roles x).phase = (m₂.roles x).phase := fun m₂ _ =>
    fields_modify Thread.phase m₂ m₁.running x fun _ => rfl
  rw [hmod, phase_withPhase, size_waiting, hsize, hr]
  by_cases hx : x = m.running
  · rw [if_pos ⟨hx, ht⟩, if_pos hx]
  · rw [if_neg fun h => hx h.1, if_neg hx]
    cases hq : m₁.isNamed s with
    | false =>
      rw [Option.filter_some_neg (by simp [hq]), if_neg fun h => nomatch h.2]
      exact hb
    | true =>
      rw [Option.filter_some_pos hq, waiting, phase_withPhase, hsize, hb]
      by_cases hxs : x = s
      · rw [if_pos ⟨hxs, hs⟩, if_pos ⟨hxs, rfl⟩]
      · rw [if_neg fun h => hxs h.1, if_neg fun h => hxs h.1]

theorem phase_released (ht : t.index < m.threads.size)
    (hs : ∀ s ∈ source, s.index < m.threads.size ∧ s ≠ t) (phase : Phase) (x : ThreadId) :
    ((m.released source t true phase).roles x).phase = if x = t then phase
      else if source = some x then .running else (m.roles x).phase := by
  cases source with
  | none =>
    have hp := m.phase_withPhase t x phase
    by_cases hx : x = t
    · rw [if_pos hx]
      exact hp.trans (if_pos ⟨hx, ht⟩)
    · rw [if_neg hx, if_neg nofun]
      exact hp.trans (if_neg fun h => hx h.1)
  | some s =>
    obtain ⟨hs, hne⟩ := hs s rfl
    have hsize : (m.withPhase t phase).threads.size = m.threads.size := Array.size_modify ..
    change (((m.withPhase t phase).withPhase s .running).roles x).phase = _
    rw [phase_withPhase, hsize, phase_withPhase]
    by_cases hx : x = t
    · subst hx
      rw [if_neg fun h => hne h.1.symm, if_pos ⟨rfl, ht⟩, if_pos rfl]
    · rw [if_neg (fun h => hx h.1 : ¬(x = t ∧ _)), if_neg hx]
      by_cases hxs : x = s
      · subst hxs
        rw [if_pos ⟨rfl, hs⟩, if_pos rfl]
      · rw [if_neg fun h => hxs h.1, if_neg fun h => hxs (Option.some.inj h).symm]

theorem settledPhase_cases (result : Except Error Unit) :
    settledPhase result = .suspended ∨ settledPhase result = .dead := by
  unfold settledPhase
  split
  · exact .inl rfl
  · exact .inr rfl

theorem isNamed_of_isMain (h : (m.threadAt t).isMain = false) : m.isNamed t = true := by
  rw [isNamed, h]
  rfl

namespace Borrows

variable (h : m.Borrows s named chain)

include h

theorem out : m.running ∉ s :: chain :=
  (h.order.parked _).mp (by rw [roles_resting, if_pos rfl])

theorem ne : s ≠ m.running := fun he => h.out (he ▸ List.mem_cons_self)

theorem ne_main : m.running ≠ mainThread := fun he => h.out (he ▸ h.order.mem_main)

theorem isMain (x : ThreadId) : (m.roles x).isMain = true ↔ x = mainThread := by
  have hm := h.order.main x
  rw [roles_resting] at hm
  split at hm
  · exact hm
  · exact hm

theorem isNamed {x : ThreadId} (hx : x ≠ mainThread) : m.isNamed x = true :=
  isNamed_of_isMain (Bool.eq_false_iff.mpr fun hm => hx ((h.isMain x).mp hm))

theorem source_there : s.index < m.threads.size := by
  refine there_of_unparked (Bool.eq_false_iff.mpr fun hp => ?_)
  rw [← roles_resting_ne h.ne, h.order.parked] at hp
  exact hp List.mem_cons_self

theorem isNamed_source : (m.below (some s)).isNamed s = false ↔
    s = mainThread ∧ m.naming s named = false := by
  by_cases hs : s = mainThread
  · rw [naming, if_pos hs]
    exact ⟨fun hn => ⟨hs, hn⟩, fun hn => hn.2⟩
  · have hb : ((m.below (some s)).threadAt s).isMain = (m.threadAt s).isMain :=
      fields_modify Thread.isMain m m.running s fun _ => rfl
    have hn : (m.below (some s)).isNamed s = true := isNamed_of_isMain (hb.trans
      (Bool.eq_false_iff.mpr fun hm => hs ((h.isMain s).mp hm)))
    constructor
    · intro hf
      cases hf.symm.trans hn
    · exact fun hf => absurd hf.1 hs

theorem naming_eq (hc : chain ≠ []) : m.naming s named = named :=
  if_neg fun hs => hc (h.order.source.mp hs)

theorem resumed : (m.resumed (some s)).roles.Ordered (m.naming s named) (m.running :: s :: chain) := by
  have hph := phase_resumed h.there (h.isNamed h.ne_main) h.source_there (m := m)
  have hmain : ∀ x, ((m.resumed (some s)).roles x).isMain = (m.roles x).isMain := fun x =>
    fields_resumed Thread.isMain x (fun _ _ => rfl) (fun _ => rfl) fun _ _ => rfl
  have hpark : ∀ x, ((m.resumed (some s)).roles x).parked = (m.roles x).parked := fun x =>
    fields_resumed Thread.parked x (fun _ _ => rfl) (fun _ => rfl) fun _ _ => rfl
  refine h.order.resumes h.out h.naming_eq (fun x => ?_) (fun x hx => ?_) ?_ (fun x hx hs => ?_) ?_ ?_
  · rw [hmain, roles_resting]
    split <;> rfl
  · rw [hpark, roles_resting_ne hx]
  · rw [hpark]
    exact h.parked
  · rw [hph, if_neg hx, if_neg fun hc => hs hc.1, roles_resting_ne hx]
  · rw [hph, if_pos rfl]
  · rw [hph, if_neg h.ne]
    cases hn : (m.below (some s)).isNamed s with
    | false =>
      rw [if_neg fun hc => (nomatch hc.2), if_pos (h.isNamed_source.mp hn), ← roles_resting_ne h.ne]
      exact h.order.running s rfl
    | true =>
      rw [if_pos ⟨rfl, rfl⟩, if_neg fun hc => nomatch hn.symm.trans (h.isNamed_source.mpr hc)]

theorem phase_resumed_dead (halive : (m.roles m.running).phase ≠ .dead) {x : ThreadId}
    (hx : (m.roles x).phase = .dead) : ((m.resumed (some s)).roles x).phase = .dead := by
  have hxt : x ≠ m.running := fun he => halive (he ▸ hx)
  have hxs : x ≠ s := fun he => by
    rw [← roles_resting_ne hxt] at hx
    exact h.order.not_mem hx (he ▸ List.mem_cons_self)
  rw [phase_resumed h.there (h.isNamed h.ne_main) h.source_there, if_neg hxt, if_neg fun hc => hxs hc.1]
  exact hx

theorem surrenders (result : Except Error Unit) {m₂ : Machine} (hr : m₂.running = m.running)
    (ho : m₂.roles.Ordered (m.naming s named) (m.running :: s :: chain)) :
    ∃ n m', m.surrender (some s) result m₂ = .done (settledStatus result, n) m' ∧
      m'.running = m.running ∧ m'.Borrows s named chain ∧
      (m'.roles m.running).phase = settledPhase result ∧
      ∀ x, (m₂.roles x).phase = .dead → (m'.roles x).phase = .dead := by
  obtain ⟨n, us, g, hs, hg⟩ := run_settleResume result { m₂ with held := (m.below (some s)).held }
  let m₃ : Machine := ({ m₂ with held := (m.below (some s)).held } : Machine).ending us g
  have hroles : m₃.roles = m₂.roles := roles_modify _ m₂.running fun th => by
    rw [Thread.role, hg.isMain, hg.parked, hg.phase, Thread.role]
  let source := (some s).filter (m.below (some s)).isNamed
  let m' := m₃.released source m.running true (settledPhase result)
  have hsource : ∀ x ∈ source, x = s := fun x hx =>
    (Option.some.inj (Option.mem_filter_iff.mp hx).1).symm
  have hthere : ∀ x ∈ m.running :: s :: chain, x.index < m₃.threads.size := fun x hx => by
    refine there_of_unparked (Bool.eq_false_iff.mpr fun hp => ?_)
    rw [hroles, ho.parked] at hp
    exact hp hx
  have hph : ∀ x, (m'.roles x).phase = if x = m.running then settledPhase result
      else if source = some x then .running else (m₃.roles x).phase :=
    phase_released (hthere _ List.mem_cons_self) (fun x hx => by
      rw [hsource x hx]
      exact ⟨hthere s (by simp), h.ne⟩) (settledPhase result)
  have hmain : ∀ x, (m'.roles x).isMain = (m₂.roles x).isMain := fun x =>
    (fields_released Thread.isMain m₃ source m.running true _ x fun _ _ => rfl).trans
      (congrArg Role.isMain (congrFun hroles x))
  have hpark : ∀ x, (m'.roles x).parked = (m₂.roles x).parked := fun x =>
    (fields_released Thread.parked m₃ source m.running true _ x fun _ _ => rfl).trans
      (congrArg Role.parked (congrFun hroles x))
  have hrun : m'.running = m.running := (running_released ..).trans hr
  have hself : (m'.roles m.running).parked = false := by
    rw [hpark]
    exact Bool.eq_false_iff.mpr fun hp => (ho.parked _).mp hp List.mem_cons_self
  have hwait : (m'.roles s).phase = .running := by
    rw [hph, if_neg h.ne]
    cases hn : (m.below (some s)).isNamed s with
    | true => rw [if_pos (Option.filter_some_pos hn)]
    | false =>
      -- the main thread without a name, which has stayed marked as running
      have hf : source = none := Option.filter_some_neg (by simp [hn])
      rw [hf, if_neg nofun, hroles, ho.waiting s (by simp), if_pos (h.isNamed_source.mp hn)]
  refine ⟨n, m', ?_, hrun, ⟨?_, ?_, ?_⟩, ?_, fun x hx => ?_⟩
  -- the head of the chain goes away, and no other role in it has changed
  · rw [surrender, run_bind, letGo, run_modify, Outcome.andThen_done, h.isNamed h.ne_main]
    exact run_endResume hs
  · rw [hrun]
    exact there_of_unparked hself
  · rw [Machine.thread, hrun]
    exact hself
  · rw [hrun]
    refine ho.returns h.naming_eq (fun x => ?_) (fun x hx => ?_) ?_ (fun x hx hs => ?_) ?_ ?_
    · rw [roles_resting, ← hmain]
      split <;> rfl
    · rw [roles_resting_ne hx, hpark]
    · rw [roles_resting, if_pos rfl]
    · rw [roles_resting_ne hx, hph, if_neg hx, if_neg (c := source = some x) fun hc => hs (hsource x hc),
        hroles]
    · rw [roles_resting, if_pos rfl]
      change (m'.roles m.running).phase = _ ∨ _
      rw [hph, if_pos rfl]
      exact settledPhase_cases result
    · rw [roles_resting_ne h.ne, hwait]
  · rw [hph, if_pos rfl]
  · have hout := ho.not_mem hx
    have hxt : x ≠ m.running := fun he => hout (he ▸ List.mem_cons_self)
    have hxs : source ≠ some x := fun he => hout (by simp [hsource x he])
    rw [hph, if_neg hxt, if_neg hxs, hroles]
    exact hx

end Borrows
end Machine
end LuaMachine
