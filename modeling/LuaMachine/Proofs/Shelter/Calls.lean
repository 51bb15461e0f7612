import LuaMachine.Proofs.Shelter.Solo

namespace LuaMachine

open Machine

def Machine.taken (m : Machine) (nargs : Nat) : Machine :=
  (m.modifyTop m.running (·.drop nargs)).modifyTop m.running (·.drop 1)

/-- Another call is in progress in the running thread; the host waits for it or not. -/
def Machine.deeper (m : Machine) (host : Bool) : Machine :=
  { m with threads := m.threads.modify m.running.index fun th =>
      { th with
        nesting := th.nesting + 1
        hostCalls := th.hostCalls + if host then 1 else 0 } }

def Machine.shallower (m : Machine) (host : Bool) : Machine :=
  { m with threads := m.threads.modify m.running.index fun th =>
      { th with
        nesting := Exec.countDown th.nesting 1
        hostCalls := Exec.countDown th.hostCalls (if host then 1 else 0) } }

def Outcome.change {α : Type} (g : Machine → Machine) : Outcome α → Outcome α
  | .done a m => .done a (g m)
  | .raised e m => .raised e (g m)
  | .exhausted => .exhausted

namespace Exec

theorem callTarget_handled (n : Nat) {v : Value} (args : List Value) (m : Machine)
    (hv : ∀ f, v ≠ .function f) : callTarget (n + 1) v args m =
      (match m.handler v .call with
        | .nil => fault (.notCallable v.kind)
        | handler => callTarget n handler (v :: args)) m := by
  cases v with
  | function f => exact absurd rfl (hv f)
  | _ => rfl

theorem callTarget_cases (n : Nat) (v : Value) (args : List Value) (m : Machine) :
    (∃ p, callTarget n v args m = .done p m) ∨
      ∃ e, e.isYield = false ∧ callTarget n v args m = .raised e m := by
  induction n generalizing v args with
  | zero =>
    cases v with
    | function f => exact .inl ⟨_, rfl⟩
    | _ => exact .inr ⟨_, rfl, rfl⟩
  | succ n ih =>
    by_cases hv : ∃ f, v = .function f
    · obtain ⟨f, rfl⟩ := hv
      exact .inl ⟨_, rfl⟩
    · rw [callTarget_handled n args m fun f he => hv ⟨f, he⟩]
      cases m.handler v .call with
      | nil => exact .inr ⟨_, rfl, rfl⟩
      | _ => exact ih _ _

theorem run_enter (re : Reentry) (nargs : Nat) (wanted : Int) (site : CallSite) (m : Machine) :
    enter re nargs wanted site m =
      callValue re (m.modifyTop m.running (·.drop nargs)).frame.peek (m.frame.topValues nargs) wanted
        site (m.taken nargs) := by
  rw [enter_eq, takeCall, run_bind]
  simp only [run_bind, run_popMany, Outcome.andThen_done, run_pop]
  rfl

theorem nested_eq (host : Bool) (x : Exec Unit) (m : Machine) : nested host x m =
    if m.limits.nesting ≤ m.thread.nesting then .raised (.fault .hostOverflow m.location) m
    else (x (m.deeper host)).change (·.shallower host) := by
  rw [nested, run_bind, run_read, Outcome.andThen_done]
  dsimp only
  split
  · rfl
  · rw [run_bind, run_modifyThread, Outcome.andThen_done, run_bind]
    change (attempt x (m.deeper host)).andThen _ = _
    cases he : x (m.deeper host) with
    | done a m' =>
      rw [run_attempt_done he]
      rfl
    | raised e m' =>
      rw [run_attempt_raised he]
      rfl
    | exhausted =>
      rw [run_attempt_exhausted he]
      rfl

end Exec

open Exec

/-- The frame above the lowest `n` has been the last one to end, its upper values being results. -/
def Machine.Answered (t : ThreadId) (n : Nat) (vs : List Value) (m : Machine) : Prop :=
  ∃ first m₀ m₁ site, m₀.running = t ∧ m₀.frameCount = n + 1 ∧
    m₀.frame.topValues (m₀.frame.top - first) = vs ∧ leave first m₀ = .done site m₁ ∧
    (m.threadAt t).frames = (m₁.threadAt t).frames

structure Finished (manners : Manners) (t : ThreadId) (n : Nat) (c : Counts) (vs : List Value)
    (wanted : Int) (m₀ m : Machine) : Prop where
  handed : Handed manners t n c vs wanted m₀ m
  answered : m.Answered t n vs

/-- The start of a call: there is a frame above the lowest `n` to go on with, the call is over, or
it has failed. -/
def Outcome.Started (manners : Manners) (t : ThreadId) (n h : Nat) (site : CallSite) (wanted : Int)
    (m₀ : Machine) : Outcome Bool → Prop
  | .done true m => m.running = t ∧
    ∃ o, o.site = site ∧ o.wanted = wanted ∧ Shelter manners t n h o m₀ t false m
  | .done false m => m.running = t ∧ ∃ vs, Returned manners t n h vs wanted m₀ m
  | .raised e m => m.running = t ∧ (Abandoned manners t n h site wanted m₀ e m ∨
    e = .yield ∧ ∃ o, o.site = site ∧ o.wanted = wanted ∧ Shelter manners t n h o m₀ t true m)
  | .exhausted => True

def Outcome.Begun (manners : Manners) (t : ThreadId) (n : Nat) (c : Counts) (site : CallSite)
    (wanted : Int) (m₀ : Machine) : Outcome Bool → Prop
  | .done true m => m.running = t ∧
    ∃ o, o.site = site ∧ o.wanted = wanted ∧ Aloft manners t n c o m₀ t false m
  | .done false m => m.running = t ∧ ∃ vs, Finished manners t n c vs wanted m₀ m
  | .raised e m => m.running = t ∧ (Dropped manners t n c site wanted m₀ e m ∨
    e = .yield ∧ ∃ o, o.site = site ∧ o.wanted = wanted ∧ Poised manners t n c o m₀ t true m)
  | .exhausted => True

def Outcome.Called (manners : Manners) (t : ThreadId) (n : Nat) (c : Counts) (site : CallSite)
    (wanted : Int) (m₀ : Machine) : Outcome Unit → Prop
  | .done _ m => m.running = t ∧ ∃ vs, Finished manners t n c vs wanted m₀ m
  | .raised e m => m.running = t ∧ (Dropped manners t n c site wanted m₀ e m ∨
    ∃ o, o.site = site ∧ o.wanted = wanted ∧ Poised manners t n c o m₀ t e.isYield m)
  | .exhausted => True

def Outcome.HostCalled (manners : Manners) (t : ThreadId) (n : Nat) (c : Counts) (wanted : Int)
    (m₀ : Machine) : Outcome Unit → Prop
  | .done _ m => m.running = t ∧ ∃ vs, Finished manners t n c vs wanted m₀ m
  | .raised e m => m.running = t ∧ (manners.honest → e.isYield = false) ∧ Landed manners t n c m₀ False m
  | .exhausted => True

/-- Native functions and the dispatch loop keep thread `t` sheltered, and its counts. -/
structure Reentry.Shelters (manners : Manners) (t : ThreadId) (re : Reentry) : Prop where
  invoke : ∀ f n c o m₀, Keeps (Aloft manners t n c o m₀) (re.invoke f)
  distant : re.Distant t
  /-- A yield leaves no call open but in a protected call. -/
  yields : ∀ {f n c o m₀ m m'}, manners.honest → m.running = t → Sole manners t n c o m₀ t false m →
    o.Native m₀ → re.invoke f m = .raised .yield m' →
    (m'.isGuarded n = true → (m'.threadAt t).Waits) ∧
      (m'.isGuarded n = false → (m'.threadAt t).pending = none)
  dispatch : ∀ {n c o m₀ m}, m.running = t → Aloft manners t n c o m₀ t false m →
    (re.dispatch n none m).Called manners t n c o.site o.wanted m₀

section Counting

variable {manners : Manners} {t : ThreadId} {n : Nat} {c : Counts} {m₀ m m' : Machine} {host : Bool}
  {y : Bool} {yielding : Prop} {o : Origin}

theorem intact_of_frames {m m' : Machine} (hf : (m'.threadAt t).frames = (m.threadAt t).frames)
    (hu : m'.upvalues = m.upvalues) (hg : m'.functions = m.functions) : Intact t n m m' where
  functions := hg ▸ List.prefix_rfl
  aliases _ _ _ ha := by
    obtain ⟨u, hs⟩ := ha
    exact ⟨u, hu ▸ hs⟩
  frames i _ f hif := ⟨f, hf ▸ hif, .refl⟩

theorem frames_deeper (m : Machine) (host : Bool) (t : ThreadId) :
    ((m.deeper host).threadAt t).frames = (m.threadAt t).frames := by
  rw [Machine.deeper, threadAt_modify]
  split <;> rfl

theorem frames_shallower (m : Machine) (host : Bool) (t : ThreadId) :
    ((m.shallower host).threadAt t).frames = (m.threadAt t).frames := by
  rw [Machine.shallower, threadAt_modify]
  split <;> rfl

theorem taken_deeper (m : Machine) (host : Bool) (nargs : Nat) :
    (m.deeper host).taken nargs = (m.taken nargs).deeper host := by
  simp only [Machine.deeper, Machine.taken, modifyTop, modify_modify]
  rfl

theorem shallower_modifyTop (m : Machine) (host : Bool) (g : Frame → Frame) :
    (m.modifyTop m.running g).shallower host = (m.shallower host).modifyTop m.running g := by
  simp only [Machine.shallower, modifyTop, modify_modify]
  rfl

def Counts.deeper (c : Counts) (host : Bool) : Counts :=
  ⟨c.hostCalls + if host then 1 else 0, c.nesting + 1⟩

theorem deeper_eq (hc : m.thread.counts = c) : m.deeper host = { m with
    threads := m.threads.modify m.running.index fun th =>
      { th with hostCalls := (c.deeper host).hostCalls, nesting := (c.deeper host).nesting } } := by
  subst hc
  unfold Machine.deeper
  congr 1
  exact m.modify_congr m.running rfl

theorem countDown_add (count calls : Nat) : countDown (count + calls) calls = count := by
  rw [countDown, if_pos (Nat.le_add_left ..), Nat.add_sub_cancel]

theorem shallower_eq (hc : m.thread.counts = c.deeper host) : m.shallower host = { m with
    threads := m.threads.modify m.running.index fun th =>
      { th with hostCalls := c.hostCalls, nesting := c.nesting } } := by
  have hh : m.thread.hostCalls = (c.deeper host).hostCalls := congrArg Counts.hostCalls hc
  have hn : m.thread.nesting = (c.deeper host).nesting := congrArg Counts.nesting hc
  unfold Machine.shallower
  congr 1
  refine m.modify_congr m.running ?_
  change ({ m.thread with
      nesting := countDown m.thread.nesting 1, hostCalls := countDown m.thread.hostCalls _ } : Thread) =
    { m.thread with nesting := c.nesting, hostCalls := c.hostCalls }
  rw [hn, hh, Counts.deeper, countDown_add, countDown_add]

theorem Landed.deeper (hm : Landed manners t n c m₀ False m) (ht : m.running = t) (host : Bool) :
    Landed manners t n (c.deeper host) m₀ False (m.deeper host) := by
  subst ht
  rw [deeper_eq hm.counts]
  exact hm.counted _ fun _ => False.elim

theorem Landed.shallower (hm : Landed manners t n (c.deeper host) m₀ yielding m)
    (ht : m.running = t) : Landed manners t n c m₀ yielding (m.shallower host) := by
  subst ht
  rw [shallower_eq hm.counts]
  exact hm.counted _ fun hh hy => (Nat.add_eq_zero_iff.mp ((hm.calm hh).2 hy)).1

theorem Handed.shallower {vs : List Value} {wanted : Int}
    (hm : Handed manners t n (c.deeper host) vs wanted m₀ m) (ht : m.running = t) :
    Handed manners t n c vs wanted m₀ (m.shallower host) := by
  obtain ⟨m', rfl, hx⟩ := hm
  change m'.running = t at ht
  subst ht
  exact ⟨m'.shallower host, shallower_modifyTop .., hx.shallower rfl⟩

theorem Finished.shallower {vs : List Value} {wanted : Int}
    (hm : Finished manners t n (c.deeper host) vs wanted m₀ m) (ht : m.running = t) :
    Finished manners t n c vs wanted m₀ (m.shallower host) := by
  obtain ⟨first, m₁, m₂, site, hr, hs, hv, he, hf⟩ := hm.answered
  exact ⟨hm.handed.shallower ht, first, m₁, m₂, site, hr, hs, hv, he,
    (frames_shallower m host t).trans hf⟩

theorem Dropped.shallower {site : CallSite} {wanted : Int} {e : Error}
    (hm : Dropped manners t n (c.deeper host) site wanted m₀ e m)
    (ht : m.running = t) : Dropped manners t n c site wanted m₀ e (m.shallower host) where
  landed := hm.landed.shallower ht
  pending hh he := by
    have hp := hm.pending hh he
    have hf : (m.shallower host).frameAt t = m.frameAt t := by
      rw [frameAt, frames_shallower, frameAt]
    subst ht
    rw [hf, ← hp, Machine.shallower, m.threadAt_modify_there hm.landed.there]

theorem Aloft.shallower (hm : Aloft manners t n (c.deeper host) o m₀ t y m) (ht : m.running = t) :
    Aloft manners t n c o m₀ t y (m.shallower host) := by
  have hf := frames_shallower m host t
  subst ht
  have he : (m.shallower host).threadAt m.running =
      { m.threadAt m.running with hostCalls := c.hostCalls, nesting := c.nesting } := by
    rw [shallower_eq hm.mark]
    exact threadAt_modify_self m hm.kept.one_lt_size _
  refine ⟨⟨hm.kept.intact.trans (intact_of_frames hf rfl rfl), by rw [hf]; exact hm.kept.origin,
    hm.kept.positive, by rw [hf]; exact hm.kept.sites, by rw [he]; exact hm.kept.parked,
    by rw [he]; exact hm.kept.status, fun hh => ?_⟩, by rw [he]; rfl⟩
  have hc := hm.kept.calm hh
  rw [he]
  exact ⟨rfl, fun hy => (Nat.add_eq_zero_iff.mp (hc.2 hy)).1, hc.3⟩

theorem Poised.shallower (hm : Poised manners t n (c.deeper host) o m₀ t y m) (ht : m.running = t) :
    Poised manners t n c o m₀ t y (m.shallower host) := by
  refine ⟨hm.kept.shallower ht, fun hh hy => ?_⟩
  have he : ((m.shallower host).threadAt t).pending = (m.threadAt t).pending := by
    rw [Machine.shallower, threadAt_modify]
    split <;> rfl
  rw [Thread.Waits, he]
  exact hm.mark hh hy

end Counting

theorem Outcome.Begun.started {manners : Manners} {t : ThreadId} {n h : Nat} {c : Counts}
    {site : CallSite} {wanted : Int} {m₀ : Machine} {x : Outcome Bool}
    (hx : x.Begun manners t n c site wanted m₀) (hn : 1 < n) (hh : manners.honest → c.hostCalls = h) :
    x.Started manners t n h site wanted m₀ := by
  cases x with
  | done left m =>
    cases left with
    | true =>
      obtain ⟨hr, o, hs, hw, hx⟩ := hx
      exact ⟨hr, o, hs, hw, hx.shelter hh⟩
    | false =>
      obtain ⟨hr, vs, hx⟩ := hx
      exact ⟨hr, vs, hx.handed.returned hn hh⟩
  | raised e m =>
    obtain ⟨hr, hx | ⟨he, o, hs, hw, hx⟩⟩ := hx
    · exact ⟨hr, .inl (hx.abandoned hn hh)⟩
    · exact ⟨hr, .inr ⟨he, o, hs, hw, hx.kept.shelter hh⟩⟩
  | exhausted => trivial

section Spec

variable {manners : Manners} {t : ThreadId} {n : Nat} {c : Counts} {m : Machine} {re : Reentry}

theorem answered_endNative {f : Frame} {m' : Machine} {results : Nat} (h : 1 < m.frameCount)
    (hf : m.thread.frames[n]? = some f) (he : endNative n results f.wanted m = .done false m') :
    m'.Answered m.running n (f.topValues results) := by
  have hn : n < m.frameCount := (Array.getElem?_eq_some_iff.mp hf).1
  obtain ⟨us, -, hc⟩ := run_truncateFrames (n + 1) m
  rw [endNative, run_bind, hc, Outcome.andThen_done] at he
  obtain ⟨_, m₂, hl, hp⟩ := Outcome.andThen_eq_done he
  cases hp
  have hs : (m.cut m.running (n + 1) us).frameCount = min (n + 1) m.frameCount := size_cut h
  have hx : (m.cut m.running (n + 1) us).frame = (m.thread.frames[n]?).getD default :=
    frameAt_cut h hn
  rw [hf, Option.getD_some] at hx
  rw [← hx] at hl ⊢
  exact ⟨(m.cut m.running (n + 1) us).frame.top - results, m.cut m.running (n + 1) us, m', _, rfl,
    by rw [hs, Nat.min_eq_left hn], topValues_sub .., leave_of_endFrame hl, rfl⟩

theorem finished_endNative {o : Origin} {m₀ : Machine} (results : Nat) (ht : m.running = t)
    (hm : Aloft manners t n c o m₀ t false m) :
    ∃ m', endNative n results o.wanted m = .done false m' ∧ m'.running = t ∧ Finished manners t n c
      ((((m.threadAt t).frames[n]?).getD default).topValues results) o.wanted m₀ m' := by
  subst ht
  obtain ⟨us, hu, he⟩ := run_endNative n results o.wanted m hm.kept.one_lt_size hm.kept.size_lt
  obtain ⟨f, hf, ho⟩ := Option.map_eq_some_iff.mp hm.kept.origin
  have hw : f.wanted = o.wanted := congrArg Origin.wanted ho
  rw [← hw] at he ⊢
  have ha := answered_endNative hm.kept.one_lt_size hf he
  rw [show (m.threadAt m.running).frames[n]? = some f from hf, Option.getD_some]
  rw [show m.thread.frames[n]? = some f from hf, Option.getD_some] at he ha
  exact ⟨_, he, rfl, ⟨_, rfl, (hm.landed hu).congr (by simp)⟩, ha⟩

theorem returned_endNative {h : Nat} {o : Origin} {m₀ : Machine} (results : Nat) (hn : 1 < n)
    (ht : m.running = t) (hm : Shelter manners t n h o m₀ t false m) :
    ∃ m', endNative n results o.wanted m = .done false m' ∧ m'.running = t ∧ Returned manners t n h
      ((((m.threadAt t).frames[n]?).getD default).topValues results) o.wanted m₀ m' := by
  obtain ⟨m', he, hr, hx⟩ := finished_endNative results ht hm.aloft
  exact ⟨m', he, hr, hx.handed.returned hn fun hh => (hm.calm hh).1⟩

theorem begun_failNative {o : Origin} {m₀ : Machine} {site : CallSite} {wanted : Int}
    {guarded : Bool} {e : Error} (ht : m.running = t) (hs : o.site = site)
    (hw : o.wanted = wanted) (hm : Aloft manners t n c o m₀ t e.isYield m)
    (hp : manners.honest → e = .yield → (guarded = true → (m.threadAt t).Waits) ∧
      (guarded = false → (m.threadAt t).pending = none)) :
    (failNative n wanted site guarded e m).Begun manners t n c site wanted m₀ := by
  subst ht
  by_cases he : e = .yield
  · subst he
    cases guarded with
    | true =>
      obtain ⟨us, hu, hc⟩ := run_truncateFrames (n + 1) m
      simp only [failNative, run_bind, if_pos, hc, Outcome.andThen_done, run_raise]
      refine ⟨rfl, .inr ⟨rfl, o, hs, hw, (hm.cut (Nat.lt_succ_self n) hu).poised fun hh _ _ => ?_⟩⟩
      rw [threadAt_cut hm.kept.one_lt_size]
      exact (hp hh rfl).1 rfl
    | false =>
      obtain ⟨us, hu, hc⟩ := run_truncateFrames n m
      have hx := (hm.landed hu).congr (iff_true_intro rfl)
      simp only [failNative, run_bind, Bool.false_eq_true, if_false, hc, Outcome.andThen_done,
        run_raise, run_suspendCall]
      refine ⟨rfl, .inl ⟨(hx.suspend _).congr (iff_true_intro rfl).symm, fun hh _ => ?_⟩⟩
      refine Machine.pending_leftOpen (m := m.cut m.running n us) hx.there ?_ wanted site
      change ((m.cut m.running n us).threadAt m.running).pending = none
      rw [threadAt_cut hm.kept.one_lt_size]
      exact (hp hh rfl).2 rfl
  · obtain ⟨us, hu, hc⟩ := run_truncateFrames n m
    have hy : e.isYield = false := by cases e <;> first | rfl | exact absurd rfl he
    have hr : (failNative n wanted site guarded e : Exec Bool) = (do truncateFrames n; raise e) := by
      cases e with
      | yield => exact absurd rfl he
      | _ => rfl
    rw [hr, run_bind, hc, Outcome.andThen_done, run_raise]
    exact ⟨rfl, .inl ⟨hm.landed hu, fun _ hf => absurd hf he⟩⟩

variable (hre : re.Shelters manners t)
include hre

theorem begun_callNative {f : FunctionId} {body : Native} (args : List Value) (wanted : Int)
    (site : CallSite) (hm : Landed manners t n c m False m) (ht : m.running = t)
    (hf : (m.functionAt f).body = .native body) :
    (callNative re f body args wanted site m).Begun manners t n c site wanted m := by
  subst ht
  have hs : m.frameCount = n := hm.size
  have hE := hm.enterFrame (nativeFrame f args wanted site)
  have hk := (hre.invoke body n c _ _).ends
    (m.enterFrame m.running (nativeFrame f args wanted site)) hE
  rw [callNative_eq re f body args wanted site m hm.there, hs]
  cases he : re.invoke body (m.enterFrame m.running (nativeFrame f args wanted site)) with
  | done results m₁ =>
    rw [he] at hk
    dsimp only
    split
    · exact ⟨hk.1, _, rfl, rfl, hk.2⟩
    · obtain ⟨m₂, (he₂ : endNative n results wanted m₁ = _), ht₂, hx⟩ :=
        finished_endNative results hk.1 hk.2
      rw [he₂]
      exact ⟨ht₂, _, hx⟩
  | raised e m₁ =>
    rw [he] at hk
    refine begun_failNative hk.1 rfl rfl hk.2 fun hh hy => ?_
    subst hy
    have hl : f.index < m.functions.size := Nat.not_le.mp fun hl => by
      rcases hre.distant.invoke_absent hl hf _ with hx | ⟨_, hx⟩ <;> cases he.symm.trans hx
    exact hre.yields (m := m.enterFrame m.running (nativeFrame f args wanted site)) hh rfl
      (Sole.enterFrame hm rfl) ⟨f, body, rfl, hl, hf⟩ he
  | exhausted => trivial

theorem begun_launch (f : FunctionId) (args : List Value) (wanted : Int) (site : CallSite)
    (hm : Landed manners t n c m False m) (ht : m.running = t) :
    (launch re f args wanted site m).Begun manners t n c site wanted m := by
  have hx : Landed manners t n c m (false = true) m := hm.congr (by simp)
  rw [launch_eq]
  split
  · exact ⟨ht, .inl ⟨hx, fun _ => nofun⟩⟩
  · split
    · split
      · exact ⟨ht, .inl ⟨hx, fun _ => nofun⟩⟩
      · subst ht
        exact ⟨rfl, _, rfl, rfl, hm.enterFrame _⟩
    · next hf => exact begun_callNative hre args wanted site hm ht hf

theorem begun_callValue (callee : Value) (args : List Value) (wanted : Int) (site : CallSite)
    (hm : Landed manners t n c m False m) (ht : m.running = t) :
    (callValue re callee args wanted site m).Begun manners t n c site wanted m := by
  rw [callValue, run_bind]
  rcases callTarget_cases chainLimit callee args m with ⟨p, hp⟩ | ⟨e, he, hp⟩
  · rw [hp]
    exact begun_launch hre p.1 p.2 wanted site hm ht
  · rw [hp]
    exact ⟨ht, .inl ⟨hm.congr (by simp [he]), fun _ hy => by rw [hy] at he; cases he⟩⟩

theorem started_callValue {h : Nat} (callee : Value) (args : List Value) (wanted : Int)
    (site : CallSite) (hm : (m.threadAt t).Ready manners n h False) (ht : m.running = t) :
    (callValue re callee args wanted site m).Started manners t n h site wanted m :=
  (begun_callValue hre callee args wanted site hm.exposed.landed ht).started hm.many fun hh =>
    (hm.calm hh).1

theorem begun_enter (nargs : Nat) (wanted : Int) (site : CallSite)
    (hm : Landed manners t n c m False m) (ht : m.running = t) :
    (enter re nargs wanted site m).Begun manners t n c site wanted (m.taken nargs) := by
  rw [run_enter]
  exact begun_callValue hre _ _ wanted site (hm.taken ht nargs) ht

theorem called_enterAndRun (nargs : Nat) (wanted : Int) (site : CallSite)
    (hm : Landed manners t n c m False m) (ht : m.running = t) :
    (enterAndRun re nargs wanted site m).Called manners t n c site wanted (m.taken nargs) := by
  have he := begun_enter hre nargs wanted site hm ht
  rw [enterAndRun, run_bind, run_frameCount, Outcome.andThen_done, run_bind, hm.frameCount ht]
  cases hr : enter re nargs wanted site m with
  | done left m₁ =>
    rw [hr] at he
    cases left with
    | true =>
      obtain ⟨hr₁, o, rfl, rfl, hs⟩ := he
      exact hre.dispatch hr₁ hs
    | false => exact he
  | raised e m₁ =>
    rw [hr] at he
    obtain ⟨hr₁, hx | ⟨rfl, o, hs, hw, hx⟩⟩ := he
    · exact ⟨hr₁, .inl hx⟩
    · exact ⟨hr₁, .inr ⟨o, hs, hw, hx⟩⟩
  | exhausted => trivial

theorem called_nested (host : Bool) (nargs : Nat) (wanted : Int) (site : CallSite)
    (hm : Landed manners t n c m False m) (ht : m.running = t)
    (hl : m.thread.nesting < m.limits.nesting) :
    (nested host (enterAndRun re nargs wanted site) m).Called manners t n c site wanted
      (m.taken nargs) := by
  have hc := called_enterAndRun hre nargs wanted site (hm.deeper ht host).refl ht
  rw [taken_deeper] at hc
  have hi : Intact t n (m.taken nargs) ((m.taken nargs).deeper host) :=
    intact_of_frames (frames_deeper ..) rfl rfl
  rw [nested_eq, if_neg (Nat.not_le.mpr hl)]
  cases hr : enterAndRun re nargs wanted site (m.deeper host) with
  | done a m₁ =>
    rw [hr] at hc
    obtain ⟨hr₁, vs, hx⟩ := hc
    obtain ⟨⟨m₂, he, hx⟩, ha⟩ := hx.shallower hr₁
    exact ⟨hr₁, vs, ⟨m₂, he, hx.trans hi⟩, ha⟩
  | raised e m₁ =>
    rw [hr] at hc
    obtain ⟨hr₁, hx | ⟨o, hs, hw, hx⟩⟩ := hc
    · have hx := hx.shallower hr₁
      exact ⟨hr₁, .inl ⟨hx.landed.trans hi, hx.pending⟩⟩
    · have hx := hx.shallower hr₁
      exact ⟨hr₁, .inr ⟨o, hs, hw, ⟨{ hx.kept.kept with intact := hi.trans hx.kept.kept.intact },
        hx.kept.mark⟩, hx.mark⟩⟩
  | exhausted => trivial

omit hre in
theorem call_eq (re : Reentry) (nargs : Nat) (wanted : Int) (m : Machine) :
    call re nargs wanted m = match nested true (enterAndRun re nargs wanted .host) m with
      | .done a m' => .done a m'
      | .raised e m' => (do unwindTo m.frameCount; raise e : Exec Unit) m'
      | .exhausted => .exhausted := by
  rw [call, run_bind, run_frameCount, Outcome.andThen_done, run_bind]
  cases he : nested true (enterAndRun re nargs wanted .host) m with
  | done a m' =>
    rw [run_attempt_done he]
    rfl
  | raised e m' =>
    rw [run_attempt_raised he]
    rfl
  | exhausted =>
    rw [run_attempt_exhausted he]
    rfl

theorem nested_unyielding (nargs : Nat) (wanted : Int) (hh : manners.honest)
    (hm : Landed manners t n c m False m) (ht : m.running = t) {e : Error} {m' : Machine}
    (he : nested true (enterAndRun re nargs wanted .host) m = .raised e m') : e.isYield = false := by
  have hc := called_enterAndRun hre nargs wanted .host (hm.deeper ht true).refl ht
  rw [nested_eq] at he
  split at he
  · cases he
    rfl
  · cases hr : enterAndRun re nargs wanted .host (m.deeper true) with
    | done a m₁ | exhausted =>
      rw [hr] at he
      cases he
    | raised e' m₁ =>
      rw [hr] at he hc
      cases he
      refine Bool.eq_false_iff.mpr fun hy => ?_
      obtain ⟨-, hx | ⟨o, -, -, hx⟩⟩ := hc
      · exact absurd ((hx.landed.calm hh).2 hy) (Nat.succ_ne_zero c.hostCalls)
      · exact absurd ((hx.kept.kept.calm hh).2 ⟨hy, rfl⟩) (Nat.succ_ne_zero c.hostCalls)

theorem hostCalled_call (nargs : Nat) (wanted : Int)
    (hm : Landed manners t n c m False m) (ht : m.running = t)
    (hl : m.thread.nesting < m.limits.nesting) :
    (call re nargs wanted m).HostCalled manners t n c wanted (m.taken nargs) := by
  have hc := called_nested hre true nargs wanted .host hm ht hl
  have hn := hm.positive
  rw [call_eq, hm.frameCount ht]
  cases hr : nested true (enterAndRun re nargs wanted .host) m with
  | done a m₁ =>
    rw [hr] at hc
    exact hc
  | raised e m₁ =>
    rw [hr] at hc
    have hy := fun hh => nested_unyielding hre nargs wanted hh hm ht hr
    obtain ⟨hr₁, hx⟩ := hc
    subst hr₁
    obtain ⟨us, hu, he⟩ := run_truncateFrames (max n 1) m₁
    change Outcome.HostCalled manners m₁.running n c wanted _
      ((do truncateFrames (max n 1); raise e : Exec Unit) m₁)
    rw [run_bind, he, Outcome.andThen_done, run_raise, Nat.max_eq_left (by omega)]
    refine ⟨rfl, hy, ?_⟩
    obtain hx | ⟨o, -, -, hx⟩ := hx
    · exact (hx.landed.cut (Nat.le_refl n) hu).still fun hh => by simp [hy hh]
    · exact (hx.kept.landed hu).still fun hh => by simp [hy hh]
  | exhausted => trivial

omit hre in
/-- At the limit of nesting a call by the host leaves its function and arguments where they are. -/
theorem call_limited (re : Reentry) (nargs : Nat) (wanted : Int)
    (hm : Landed manners t n c m False m) (ht : m.running = t)
    (hl : m.limits.nesting ≤ m.thread.nesting) :
    ∃ m', call re nargs wanted m = .raised (.fault .hostOverflow m.location) m' ∧
      m'.running = t ∧ m'.threadAt t = m.threadAt t ∧ Landed manners t n c m False m' := by
  have hn := hm.positive
  subst ht
  obtain ⟨us, hu, he⟩ := run_truncateFrames (max n 1) m
  have hth : (m.cut m.running n us).threadAt m.running = m.threadAt m.running := by
    have hth : (m.cut m.running n us).threadAt m.running = _ := m.threadAt_modify_there hm.there _
    rw [hth, ← hm.size, take_size]
  refine ⟨m.cut m.running n us, ?_, rfl, hth, hm.cut (Nat.le_refl n) hu⟩
  rw [call_eq, nested_eq, if_pos hl, hm.frameCount rfl]
  change (do truncateFrames (max n 1); raise _ : Exec Unit) m = _
  rw [run_bind, he, Nat.max_eq_left (by omega)]
  rfl

end Spec
end LuaMachine
