import LuaMachine.Proofs.Protected
import LuaMachine.Proofs.Shelter.HostCalls

namespace LuaMachine

open Machine Exec

class Condition.Guards (K : Condition) : Prop where
  guarding : ∀ {r y m} (t : ThreadId) (g : Option Guard), K r y m →
    K r y (m.modifyTop t fun f => { f with guard := g })

instance Shelter.guards {manners : Manners} {t : ThreadId} {n h : Nat} {o : Origin} {m₀ : Machine} :
    Condition.Guards (Shelter manners t n h o m₀) := ⟨fun t' g hm => hm.guarding t' g⟩

instance Condition.Marked.guards {t : ThreadId} {P : Prop → Thread → Prop} [Thread.Mark P]
    {K : Condition} [hK : K.Guards] : Condition.Guards (Condition.Marked t P K) :=
  ⟨fun t' g hm => hm.modify t' _ (fun _ => rfl) (hK.guarding t' g hm.kept)⟩

theorem Condition.Guards.keeps_takeGuard {K : Condition} [K.Stable] [hK : K.Guards] :
    Keeps K takeGuard := by
  have hm : Keeps K (modifyFrame fun f => { f with guard := none }) :=
    ⟨fun m hm => ⟨rfl, hK.guarding m.running none hm⟩⟩
  unfold takeGuard
  infer_instance

/-- A condition on a sheltered thread: what it says of a yield on its way is no more than that the
yield has left a call open. -/
structure Condition.Covers (manners : Manners) (t : ThreadId) (n : Nat) (c : Counts) (o : Origin)
    (m₀ : Machine) (K : Condition) : Prop where
  aloft : ∀ {m}, K t false m → Aloft manners t n c o m₀ t false m
  poised : ∀ {y m}, Poised manners t n c o m₀ t y m → K t y m

section

variable {manners : Manners} {t : ThreadId} {n : Nat} {c : Counts} {o : Origin} {m₀ m : Machine}
  {y : Bool} {re : Reentry} {K : Condition}

theorem Aloft.covers : Condition.Covers manners t n c o m₀ (Aloft manners t n c o m₀) :=
  ⟨id, fun hm => hm.kept⟩

theorem Poised.covers : Condition.Covers manners t n c o m₀ (Poised manners t n c o m₀) :=
  ⟨fun hm => hm.kept, id⟩

theorem Aloft.yielding (hm : Aloft manners t n c o m₀ t false m)
    (hh : manners.honest → y = true → c.hostCalls = 0) : Aloft manners t n c o m₀ t y m :=
  ⟨{ hm.kept with calm := fun hh' => ⟨(hm.kept.calm hh').1, fun hy => hh hh' hy.1,
      .inl ((hm.kept.calm hh').3.resolve_right fun hf => absurd hf.1 (by decide))⟩ }, hm.mark⟩

namespace Condition.Covers

variable (hK : K.Covers manners t n c o m₀)
include hK

theorem quiet (hm : Aloft manners t n c o m₀ t false m) : K t false m := hK.poised hm.poisedQuiet

theorem returning : K.Returning manners t c where
  ready ht hm := (hK.aloft hm).ready ht
  landed ht hm hx := by
    subst ht
    exact hK.quiet ((hK.aloft hm).ofLanded (hK.aloft hm).kept.size_lt (Nat.le_refl _)
      (hx.congr (by simp)))
  careless {y m} hy hm := by
    have hf : manners.honest → y = true → False := fun hh hy' => by
      rw [hy hh] at hy'
      cases hy'
    exact hK.poised (((hK.aloft hm).yielding fun hh hy' => (hf hh hy').elim).poised
      fun hh hy' _ => (hf hh hy').elim)

theorem ends_begun {k : Nat} {site : CallSite} {wanted : Int} {x : Outcome Bool}
    (hm : Aloft manners t n c o m₀ t false m) (hk : n < k)
    (hs : k ≤ (m.threadAt t).frames.size) (hsite : site ≠ .host)
    (hx : x.Begun manners t k c site wanted m) : x.Ends K t := by
  cases x with
  | done left m' =>
    cases left with
    | true =>
      obtain ⟨hr, o', rfl, rfl, hx⟩ := hx
      exact ⟨hr, hK.quiet (hm.widen hk hs hsite hx)⟩
    | false =>
      obtain ⟨hr, vs, hx⟩ := hx
      exact ⟨hr, hK.quiet (hm.ofHanded hk hs hx.handed)⟩
  | raised e m' =>
    obtain ⟨hr, hx | ⟨rfl, o', rfl, rfl, hx⟩⟩ := hx
    · exact ⟨hr, hK.poised ((hm.ofLanded hk hs hx.landed).poised fun hh hy _ =>
        ⟨_, hx.pending hh (Error.eq_yield hy), hsite⟩)⟩
    · exact ⟨hr, hK.poised ⟨hm.widen hk hs hsite hx.kept, hx.mark⟩⟩
  | exhausted => trivial

theorem ends_called {k : Nat} {site : CallSite} {wanted : Int} {x : Outcome Unit}
    (hm : Aloft manners t n c o m₀ t false m) (hk : n < k)
    (hs : k ≤ (m.threadAt t).frames.size) (hsite : site ≠ .host)
    (hx : x.Called manners t k c site wanted m) : x.Ends K t := by
  cases x with
  | done a m' =>
    obtain ⟨hr, vs, hx⟩ := hx
    exact ⟨hr, hK.quiet (hm.ofHanded hk hs hx.handed)⟩
  | raised e m' =>
    obtain ⟨hr, hx | ⟨o', rfl, rfl, hx⟩⟩ := hx
    · exact ⟨hr, hK.poised ((hm.ofLanded hk hs hx.landed).poised fun hh hy _ =>
        ⟨_, hx.pending hh (Error.eq_yield hy), hsite⟩)⟩
    · exact ⟨hr, hK.poised ⟨hm.widen hk hs hsite hx.kept, hx.mark⟩⟩
  | exhausted => trivial

variable (hre : re.Shelters manners t)
include hre

theorem ends_enter (nargs : Nat) (wanted : Int) {site : CallSite} (hsite : site ≠ .host)
    (hm : Aloft manners t n c o m₀ t false m) (ht : m.running = t) :
    (enter re nargs wanted site m).Ends K t := by
  have hs := begun_enter hre nargs wanted site (hm.ready ht) ht
  have hm' : Aloft manners t n c o m₀ t false (m.taken nargs) :=
    Condition.Steady.top _ _ (Condition.Steady.top _ _ hm)
  refine hK.ends_begun hm' (hm.kept.lt_frameCount ht) ?_ hsite hs
  rw [← frameCount_taken m nargs]
  subst ht
  exact Nat.le_refl _

variable [K.Homed t] [K.Stable]

theorem keeps_callYieldable (nargs : Nat) (wanted : Int) :
    Keeps K (callYieldable re nargs wanted) := by
  refine Condition.keeps_of (hre.distant.callYieldable nargs wanted) fun m ht hm => ?_
  have hm := hK.aloft hm
  by_cases hl : m.thread.nesting < m.limits.nesting
  · have hc := called_nested hre false nargs wanted .metamethod (hm.ready ht) ht hl
    have hm' : Aloft manners t n c o m₀ t false (m.taken nargs) :=
      Condition.Steady.top _ _ (Condition.Steady.top _ _ hm)
    refine hK.ends_called hm' (hm.kept.lt_frameCount ht) ?_ (by simp) hc
    rw [← frameCount_taken m nargs]
    subst ht
    exact Nat.le_refl _
  · rw [callYieldable, nested_eq, if_pos (Nat.not_lt.mp hl)]
    exact ⟨ht, hK.quiet hm⟩

theorem calls : re.Calls K where
  call := hK.returning.keeps_call hre
  callHolds := hK.returning.holds_call hre
  callHandler _ _ _ :=
    keeps_callHandlerOf re (hK.returning.keeps_call hre) (hK.keeps_callYieldable hre)
  pcall := hK.returning.keeps_pcall hre

set_option synthInstance.maxSize 256 in
theorem keeps_guardedCall [hg : K.Guards] (handler : Option Value) :
    Keeps K (guardedCall re handler) := by
  refine Condition.keeps_of (hre.distant.starts.guardedCall handler) fun m ht hm => ?_
  have hm := hK.aloft hm
  have hs := hm.kept.lt_frameCount ht
  have hg : Aloft manners t n c o m₀ t false
      (m.modifyTop m.running fun f => { f with guard := some { handler } }) :=
    Condition.Guards.guarding _ _ hm
  have he := hK.ends_enter hre (m.frame.top - 1) (-1) (by simp : CallSite.guarded ≠ .host) hg ht
  rw [guardedCall_eq]
  -- the guard stays while bytecode is running, and comes off if the call is over or has failed
  cases hr : enter re (m.frame.top - 1) (-1) .guarded
      (m.modifyTop m.running fun f => { f with guard := some { handler } }) with
  | done left m₁ =>
    rw [hr] at he
    cases left with
    | true => exact he
    | false =>
      have := (Condition.Guards.keeps_takeGuard : Keeps K takeGuard)
      have hk : Keeps K endReturned := by
        unfold endReturned
        infer_instance
      exact hk.endsIn he.1 he.2
  | raised e m₁ =>
    rw [hr] at he
    obtain ⟨hr₁, hx⟩ := he
    subst hr₁
    cases e with
    | yield => exact ⟨rfl, hx⟩
    | _ =>
      have hc := fun v e => hK.returning.keeps_caughtValue hre v e
      have := (Condition.Guards.keeps_takeGuard : Keeps K takeGuard)
      have hf : ∀ e, Keeps K (do
          let v ← caughtValue re (← takeGuard) e
          modifyFrame (·.setTop 0)
          push (.bool false)
          push v
          return 2) := fun e => inferInstance
      obtain ⟨us, hu, he⟩ := run_truncateFrames m.frameCount m₁
      rw [afterStart_raised, endFailed, run_bind, he]
      · exact (hf _).endsIn rfl (hK.quiet ((hK.aloft hx).cut hs hu))
      · nofun
  | exhausted => trivial

theorem starts [K.Guards] : re.Starts K where
  enter nargs wanted site hs := Condition.keeps_of (hre.distant.starts.enter nargs wanted site hs)
    fun _ ht hm => hK.ends_enter hre nargs wanted hs (hK.aloft hm) ht
  guardedCall := hK.keeps_guardedCall hre

end Condition.Covers

instance Aloft.yields : Condition.Yields (Aloft manners t n c o m₀) where
  yields {α} k := ⟨fun m hm => by
    by_cases ht : m.running = t
    · rw [run_bind, yieldError_eq]
      split
      · exact ⟨rfl, hm⟩
      · split
        · exact ⟨rfl, hm⟩
        · next hc =>
          have hy : Aloft manners t n c o m₀ t true m := Aloft.yielding (ht ▸ hm) fun hh _ => by
            have := (hm.kept.calm hh).1
            rw [Machine.thread, ht] at hc
            omega
          exact ⟨rfl, Condition.Steady.transfer _ (Condition.Steady.top _ _ (ht.symm ▸ hy))⟩
    · exact ((Condition.Yields.yields k : Keeps (Condition.Elsewhere t (Aloft manners t n c o m₀))
        (yieldError k >>= fun e => (raise e : Exec α))).ends m ⟨ht, hm⟩).imp fun _ _ h => h.2⟩

end

namespace Shelter

variable {manners : Manners} {t : ThreadId} {n h : Nat} {o : Origin} {m₀ : Machine} {re : Reentry}

/-- What keeps the counts of a thread as well keeps it sheltered. -/
theorem keeps_of_aloft {α : Type} {x : Exec α} (hx : ∀ c, Keeps (Aloft manners t n c o m₀) x) :
    Keeps (Shelter manners t n h o m₀) x where
  ends m hm := ((hx _).ends m hm.aloft).imp fun _ _ hm' => hm'.shelter fun hh => (hm.calm hh).1

theorem keeps_caughtValue (hre : re.Shelters manners t) (handler : Option Value) (e : Error) :
    Keeps (Shelter manners t n h o m₀) (caughtValue re handler e) :=
  keeps_of_aloft fun _ => Aloft.covers.returning.keeps_caughtValue hre handler e

end Shelter

namespace Sole

variable {manners : Manners} {t : ThreadId} {n : Nat} {c : Counts} {o : Origin} {m₀ m m' : Machine}
  {y : Bool} {re : Reentry}

theorem ofLanded (hm : Sole manners t n c o m₀ t false m)
    (hx : Landed manners t (n + 1) c m False m') : Sole manners t n c o m₀ t false m' where
  kept :=
    { shelter := (hm.aloft.ofLanded (Nat.lt_succ_self n) (Nat.le_of_eq hm.kept.size.symm)
        (hx.congr (by simp))).kept
      size := hx.size
      unguarded := by
        have hg := hm.kept.unguarded
        cases hf : (m.threadAt t).frames[n]? with
        | none =>
          rw [hf] at hg
          cases hg
        | some f =>
          obtain ⟨g, hfg, hk⟩ := hx.intact.frames n (Nat.lt_succ_self n) f hf
          rw [hf] at hg
          rw [hfg, ← hg]
          exact congrArg some (congrArg Frame.guard hk.1 : g.control.guard = f.control.guard)
      pending := fun hh => (hx.calm hh).3.resolve_right id }
  mark := hx.counts

theorem frameCount (hm : Sole manners t n c o m₀ t y m) (ht : m.running = t) :
    m.frameCount = n + 1 := by
  subst ht
  exact hm.kept.size

theorem returning : Condition.Returning manners t c (Sole manners t n c o m₀) where
  ready ht hm := hm.aloft.ready ht
  landed ht hm hx := hm.ofLanded (hm.frameCount ht ▸ hx)
  careless hy hm :=
    have hx := Aloft.covers.returning.careless hy hm.aloft
    ⟨{ hm.kept with shelter := hx.kept }, hx.mark⟩

/-- A native function calls metamethods on behalf of the host. -/
theorem not_inBytecode (ho : o.Native m₀) (hm : Sole manners t n c o m₀ t y m) (ht : m.running = t) :
    m.prototype = none := by
  obtain ⟨f, b, hf, hl, hb⟩ := ho
  have hfun := (hm.kept.shelter.intact.functionAt hl).2
  have hfr : m.frame.function = some f := by
    have ho := hm.kept.shelter.origin
    have hback : m.frame = ((m.threadAt t).frames[n]?).getD default := by
      rw [Machine.frame, ht, frameAt, Array.back?, hm.kept.size, Nat.add_sub_cancel]
    rw [hback]
    cases hfr : (m.threadAt t).frames[n]? with
    | none =>
      rw [hfr] at ho
      cases ho
    | some g =>
      rw [hfr] at ho
      rw [← hf, ← Option.some.inj ho]
      rfl
  rw [Machine.prototype, prototypeOf, functionOf, hfr, Option.map_some, hfun]
  cases hg : m₀.functionAt f with
  | mk body upvalues =>
    rw [hg] at hb
    cases hb
    rfl

set_option synthInstance.maxSize 256 in
theorem keeps_callHandler (hre : re.Shelters manners t) (ho : o.Native m₀) (handler : Value)
    (args : List Value) (wantsResult : Bool) :
    Keeps (Sole manners t n c o m₀) (callHandler re handler args wantsResult) := by
  have hx : ∀ nargs wanted, Keeps (Sole manners t n c o m₀)
      (do if ← inBytecode then callYieldable re nargs wanted else call re nargs wanted) := by
    intro nargs wanted
    have hy : Keeps (Condition.Elsewhere t (Sole manners t n c o m₀)) _ :=
      hre.distant.callYieldable nargs wanted
    have hc : Keeps (Condition.Elsewhere t (Sole manners t n c o m₀)) _ :=
      hre.distant.safe.call nargs wanted
    have hb : Keeps (Condition.Elsewhere t (Sole manners t n c o m₀)) inBytecode := keeps_read _
    refine Condition.keeps_of (keeps_bind (K := Condition.Elsewhere t _) _ _) fun m ht hm => ?_
    have he : inBytecode m = .done false m := by
      rw [inBytecode, run_read, not_inBytecode ho hm ht]
      rfl
    rw [run_bind, he]
    exact (returning.keeps_call hre nargs wanted).endsIn ht hm
  unfold callHandler
  infer_instance

theorem calls (hre : re.Shelters manners t) (ho : o.Native m₀) :
    re.Calls (Sole manners t n c o m₀) where
  call := returning.keeps_call hre
  callHolds := returning.holds_call hre
  callHandler := keeps_callHandler hre ho
  pcall := returning.keeps_pcall hre

theorem ofSeal {r r' : ThreadId} {y' : Bool} (hm : Sole manners t n c o m₀ r y m)
    (hs : (m'.threadAt t).seal n = (m.threadAt t).seal n)
    (hm' : Aloft manners t n c o m₀ r' y' m') : Sole manners t n c o m₀ r' y' m' :=
  ⟨hm.kept.ofSeal hs hm'.kept, hm'.mark⟩

instance yields : Condition.Yields (Sole manners t n c o m₀) where
  yields {α} k := ⟨fun m hm => by
    have hs := (Condition.Yields.yields k : Keeps (Aloft manners t n c o m₀)
      (yieldError k >>= fun e => (raise e : Exec α))).ends m hm.aloft
    have hseal : ∀ vs, ((handOver (m.modifyTop m.running (·.drop k)) vs).threadAt t).seal n =
        (m.threadAt t).seal n := by
      intro vs
      rw [handOver, threadAt_modify, ← seal_modifyTop m t m.running n (g := (·.drop k)) fun _ => rfl]
      split <;> rfl
    rw [run_bind, yieldError_eq] at hs ⊢
    split
    · exact ⟨rfl, hm⟩
    · split
      · exact ⟨rfl, hm⟩
      · next h₁ h₂ =>
        rw [if_neg h₁, if_neg h₂] at hs
        exact ⟨hs.1, hm.ofSeal (hseal _) hs.2⟩⟩

theorem endFailed_done (level : Nat) (e : Error) (m : Machine) :
    endFailed re level e m = .exhausted ∨ ∃ k m', endFailed re level e m = .done k m' := by
  obtain ⟨us, -, hc⟩ := run_truncateFrames level m
  rw [endFailed, run_bind, hc, Outcome.andThen_done, run_bind, run_takeGuard, Outcome.andThen_done,
    run_bind]
  rcases caughtValue_done re ((m.cut m.running level us).frame.guard.bind Guard.handler) e
    ((m.cut m.running level us).modifyTop (m.cut m.running level us).running
      fun f => { f with guard := none }) with he | ⟨v, m', he⟩
  · exact .inl (by rw [he]; rfl)
  · exact .inr ⟨_, _, by rw [he]; rfl⟩

theorem enter_of_yield {handler : Option Value} (hy : guardedCall re handler m = .raised .yield m') :
    enter re (m.frame.top - 1) (-1) .guarded
      (m.modifyTop m.running fun f => { f with guard := some { handler } }) =
        .raised .yield m' := by
  rw [guardedCall_eq] at hy
  cases he : enter re (m.frame.top - 1) (-1) .guarded
      (m.modifyTop m.running fun f => { f with guard := some { handler } }) with
  | done left m₁ =>
    rw [he] at hy
    cases left <;> cases hy
  | raised e m₁ =>
    rw [he] at hy
    cases e with
    | yield => rw [Outcome.raised.inj hy |>.2]
    | _ =>
      rcases @endFailed_done re m.frameCount _ m₁ with h | ⟨k, m₂, h⟩ <;>
        exact absurd (h.symm.trans hy) nofun
  | exhausted =>
    rw [he] at hy
    cases hy

theorem guard_taken (h : 1 < m.frameCount) (g : Option Guard) (nargs : Nat) :
    (((m.modifyTop m.running fun f => { f with guard := g }).taken nargs).frame).guard = g := by
  unfold Machine.taken
  change ((((m.modifyTop m.running _).modifyTop m.running _).modifyTop m.running _).frameAt
    m.running).guard = g
  rw [modifyTop_modifyTop, modifyTop_modifyTop, frameAt_modifyTop_self h]
  rfl

theorem guarded_of_enter (hre : re.Shelters manners t) {nargs : Nat} {wanted : Int}
    {site : CallSite} (hsite : site ≠ .host) (hm : Aloft manners t n c o m₀ t false m) (ht : m.running = t)
    (hs : m.frameCount = n + 1) (hg : (m.taken nargs).frame.guard.isSome = true)
    (hy : enter re nargs wanted site m = .raised .yield m') :
    m'.isGuarded n = true ∧ (manners.honest → (m'.threadAt t).Waits) := by
  have hx := begun_enter hre nargs wanted site (hm.ready ht) ht
  rw [hy, hs] at hx
  have hi : Intact t (n + 1) (m.taken nargs) m' := by
    rcases hx.2 with hx | ⟨-, o', -, -, hx⟩
    · exact hx.landed.intact
    · exact hx.kept.kept.intact
  refine ⟨?_, fun hh => ?_⟩
  · subst ht
    have hf : ((m.taken nargs).threadAt m.running).frames[n]? = some (m.taken nargs).frame :=
      getElem?_top ((frameCount_taken m nargs).trans hs)
    obtain ⟨f, hf', hk⟩ := hi.frames n (Nat.lt_succ_self n) _ hf
    have hk : f.guard = (m.taken nargs).frame.guard :=
      (congrArg Frame.guard hk.1 : f.control.guard = (m.taken nargs).frame.control.guard)
    rw [Machine.isGuarded, Machine.thread, hx.1, hf', Option.any_some, hk, hg]
  · rcases hx.2 with hx | ⟨-, o', -, -, hx⟩
    · exact ⟨_, hx.pending hh rfl, hsite⟩
    · exact hx.mark hh ⟨rfl, rfl⟩

theorem guarded_of_yield (hre : re.Shelters manners t) {handler : Option Value}
    (hm : Sole manners t n c o m₀ t false m) (ht : m.running = t)
    (hy : guardedCall re handler m = .raised .yield m') :
    m'.isGuarded n = true ∧ (manners.honest → (m'.threadAt t).Waits) := by
  have hone : 1 < m.frameCount := by
    have := hm.kept.shelter.one_lt_size
    rwa [← ht] at this
  refine guarded_of_enter hre (show CallSite.guarded ≠ .host from nofun)
    (Condition.Guards.guarding m.running (some { handler }) hm.aloft) ht
    ((m.size_modifyTop ..).trans (hm.frameCount ht)) ?_ (enter_of_yield hy)
  rw [guard_taken hone]
  rfl

end Sole
end LuaMachine
