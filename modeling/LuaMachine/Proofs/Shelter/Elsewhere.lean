import LuaMachine.Proofs.Invariant.Foreign
import LuaMachine.Proofs.Frame.Intact

namespace LuaMachine

open Machine

class Condition.Homed (t : ThreadId) (K : Condition) : Prop where
  many : ∀ {r y m}, K r y m → 1 < (m.threadAt t).frames.size
  parked : ∀ {r y m}, K r y m → (m.threadAt t).parked = false
  /-- Something happens, but not in the thread, and no yield is on its way in it. -/
  moved : ∀ {r y m r' y' m'}, (y = true → r ≠ t) → (y' = true → r' ≠ t) →
    m'.threadAt t = m.threadAt t → (∀ i s, m'.Aliased t i s → m.Aliased t i s) →
    m.functions.toList <+: m'.functions.toList → K r y m → K r' y' m'
  phase : ∀ {r y m} (t' : ThreadId) (phase : Phase), K r y m →
    K r y { m with threads := m.threads.modify t'.index fun th => { th with phase } }

namespace Condition

variable {K : Condition} {t : ThreadId}

theorem Homed.away_of_ne (t : ThreadId) [hK : K.Homed t] {r m} (hr : r ≠ t) (hm : K r true m) :
    K r false m :=
  hK.moved (fun _ => hr) (fun _ => hr) rfl (fun _ _ ha => ha) List.prefix_rfl hm

/-- Another thread is taken up while it is at rest, so it is not the one that the condition is
about. -/
theorem Homed.inThread (t : ThreadId) [hK : K.Homed t] {α : Type} (t' : ThreadId) {x : Exec α} {m : Machine}
    (hm : K m.running false m)
    (hx : ∀ m, m.running ≠ t → K m.running false m → (x m).Ends K.quiet m.running) :
    (Exec.inThread t' x m).Ends K.quiet m.running := by
  have hne : (m.threadAt t').parked = true → t' ≠ t := fun hp ht => by
    rw [ht, hK.parked hm] at hp
    cases hp
  refine Exec.ends_inThread (L := K.quiet) ⟨rfl, hm⟩ (fun hp => ?_) fun y m' hp hm' => ?_
  · exact hx (m.taking t') (hne hp.parked) (hK.moved (by simp) (by simp)
      (threadAt_modify_ne m (hne hp.parked).symm _) (fun _ _ ha => ha) List.prefix_rfl hm)
  · exact ⟨hm'.1, hK.moved (by simp [hm'.1]) (by simp [hm'.1])
      (threadAt_modify_ne m' (hne hp.parked).symm _) (fun _ _ ha => ha) List.prefix_rfl hm'.2⟩

def Elsewhere (t : ThreadId) (K : Condition) : Condition := fun r y m => r ≠ t ∧ K r y m

theorem Homed.inThreadAway [hK : K.Homed t] {α : Type} {t' : ThreadId} {x : Exec α} {m : Machine}
    (hm : K m.running false m) (hx : Exec.Keeps (Condition.away (Elsewhere t K)) x) :
    (Exec.inThread t' x m).Ends K.quiet m.running :=
  Homed.inThread t t' hm fun m' hr hm' =>
    (hx.ends m' ⟨⟨rfl, hr, hm'⟩, fun _ h => ⟨hr, Homed.away_of_ne t hr h.2⟩⟩).imp
      fun _ _ h => ⟨h.1.1, h.1.2.2⟩

theorem Homed.keeps_inThread [hK : K.Homed t] {α : Type} (t' : ThreadId) {x : Exec α}
    (hx : Exec.Keeps (Condition.away (Elsewhere t K)) x) : Exec.Keeps K (Exec.inThread t' x) :=
  .ofQuiet ⟨fun _ hm => Homed.inThreadAway hm.2 hx⟩

theorem Homed.keeps_inThreadOrBusy [hK : K.Homed t] (t' : ThreadId) {x : Exec Reply}
    (hx : Exec.Keeps (Condition.away (Elsewhere t K)) x) : Exec.Keeps K (Exec.inThreadOrBusy t' x) := by
  have := Homed.keeps_inThread t' hx
  unfold Exec.inThreadOrBusy
  infer_instance

/-- What keeps a condition while another thread is running needs only to be looked at in the thread
itself. -/
theorem keeps_of {α : Type} {x : Exec α} (he : Exec.Keeps (Elsewhere t K) x)
    (hx : ∀ m, m.running = t → K t false m → (x m).Ends K t) : Exec.Keeps K x where
  ends m hm := by
    by_cases ht : m.running = t
    · rw [ht] at hm ⊢
      exact hx m ht hm
    · exact (he.ends m ⟨ht, hm⟩).imp fun _ _ h => h.2

instance elsewhere_stable [hK : K.Homed t] [hs : K.Stable] :
    Condition.Stable (Elsewhere t K) where
  heap m m' ht hu hf hl hm := ⟨hm.1, hs.heap m m' ht hu hf hl hm.2⟩
  closed v hm := ⟨hm.1, hs.closed v hm.2⟩
  assigned u v w hu hm := ⟨hm.1, hs.assigned u v w hu hm.2⟩
  closing start hm := ⟨hm.1, hs.closing start hm.2⟩
  capturing slot hf hn hm := ⟨hm.1, hs.capturing slot hf hn hm.2⟩
  top t' g _ hm := ⟨hm.1, hs.top t' g hm.2⟩
  frame m m' g _ hm hm' := ⟨hm.1, hs.frame m m' g hm.2 hm'.2⟩
  register u p v hu hm := ⟨hm.1, hs.register u p v hu hm.2⟩
  thread hm := ⟨hm.1, hs.thread hm.2⟩
  transfer vs hm := ⟨hm.1, hs.transfer vs hm.2⟩
  inThread _ _ hx := ⟨fun _ hm => (Homed.inThreadAway hm.2.2 hx).imp fun _ _ h => ⟨h.1, hm.2.1, h.2⟩⟩

theorem Elsewhere.onThread [hK : K.Homed t] {r y m} (hm : Elsewhere t K r y m)
    (g : Thread → Thread) :
    Elsewhere t K r y { m with threads := m.threads.modify r.index g } :=
  ⟨hm.1, hK.moved (fun _ => hm.1) (fun _ => hm.1) (threadAt_modify_ne _ hm.1.symm g)
    (fun _ _ ha => ha) List.prefix_rfl hm.2⟩

instance elsewhere_foreign [hK : K.Homed t] : Condition.Foreign (Elsewhere t K) where
  thread g _ hm := hm.onThread g
  guard g hm := hm.onThread _
  enter f _ _ hm := hm.onThread _
  leave {r _ m} hm := by
    have ht : (m.leaveFrame r).threadAt t = m.threadAt t :=
      threadAt_modify_ne (m.closeAll (m.frameAt r).captured) hm.1.symm _
    have ha : ∀ i s, (m.leaveFrame r).Aliased t i s → m.Aliased t i s := fun _ _ =>
      aliased_cut (m := m) (t := t) (n := 0) (Exec.closes_closeAll m (m.frameAt r).captured)
    exact ⟨hm.1, hK.moved (fun _ => hm.1) (fun _ => hm.1) ht ha List.prefix_rfl hm.2⟩
  phase t' phase hm := ⟨hm.1, hK.phase t' phase hm.2⟩

instance elsewhere_deaf [hK : K.Homed t] : Condition.Deaf (Elsewhere t K) where
  yield _ := ⟨fun hm => ⟨hm.1, hK.moved (fun _ => hm.1) (fun _ => hm.1) rfl (fun _ _ ha => ha)
      List.prefix_rfl hm.2⟩,
    fun hm => ⟨hm.1, hK.moved (fun _ => hm.1) (fun _ => hm.1) rfl (fun _ _ ha => ha)
      List.prefix_rfl hm.2⟩⟩

end Condition

structure Reentry.Distant (t : ThreadId) (re : Reentry) : Prop extends re.Genuine where
  invoke : ∀ {K : Condition} [K.Homed t] [K.Stable] f, Exec.Keeps (K.Elsewhere t) (re.invoke f)
  dispatch : ∀ {K : Condition} [K.Homed t] [K.Stable] stop site,
    Exec.Keeps (K.Elsewhere t) (re.dispatch stop site)

namespace Reentry.Distant

variable {K : Condition} {t : ThreadId} [K.Homed t] [K.Stable] {re : Reentry}

theorem safe (hre : re.Distant t) : re.Safe (K.Elsewhere t) :=
  have := hre.toGenuine
  re.safe_framed hre.invoke hre.dispatch

theorem starts (hre : re.Distant t) : re.Starts (K.Elsewhere t) :=
  have := hre.toGenuine
  re.starts_framed hre.invoke hre.dispatch

theorem callYieldable (hre : re.Distant t) (nargs : Nat) (wanted : Int) :
    Exec.Keeps (K.Elsewhere t) (Exec.callYieldable re nargs wanted) := by
  have := hre.toGenuine
  have hi := fun f => hre.invoke (K := K) f
  have hd := fun stop site => hre.dispatch (K := K) stop site
  exact Exec.keeps_nested false _

theorem resumes (hre : re.Distant t) : re.Resumes K :=
  have := hre.safe (K := K)
  Library.Coroutine.resumes_of_lent re fun {m} t' nargs => (Condition.Homed.keeps_inThread t'
    (Library.Coroutine.keeps_resumeLent (K := (K.Elsewhere t).away) re m.running t' nargs)).ends m

theorem lends (hre : re.Distant t) : re.Lends K :=
  have := hre.safe (K := K)
  { resume := fun t' _ _ => Condition.Homed.keeps_inThreadOrBusy (t := t) t' inferInstance
    move := fun t' _ _ _ => Condition.Homed.keeps_inThreadOrBusy (t := t) t' inferInstance }

/-- The thread may do anything but resume itself. -/
theorem keeps_tactful (hre : re.Distant t) [re.Calls K] [K.Yields] (outer : Option ThreadId)
    (op : Operation) (ht : op.isTactful = true) (h : ∀ e ∈ op.failures, Exec.Lax K e) :
    Exec.Keeps K (Exec.perform re outer op) := by
  have := hre.lends (K := K)
  match op with
  | .stack op => exact Exec.keeps_performStack op
  | .table op => exact Exec.keeps_performTable re op
  | .call op => exact Exec.keeps_performCall re outer op (.inl ht) h
  | .library op => exact Exec.keeps_performLibrary re op
  | .within i operations =>
    have := hre.safe (K := K)
    have hall (here : Option ThreadId) :=
      Exec.keeps_performEach (K := K.Elsewhere t) re here operations fun op _ =>
        Exec.keeps_perform re here op fun e _ => inferInstance
    have hx (here t' : ThreadId) : Exec.Keeps K (Exec.inThreadOrBusy t' do
        return .steps (← Exec.performAll re (some here) operations)) :=
      Condition.Homed.keeps_inThreadOrBusy (t := t) t' inferInstance
    unfold Exec.perform
    infer_instance
  | .attempt op =>
    have ho := keeps_tactful hre outer op ht h
    unfold Exec.perform
    infer_instance

end Reentry.Distant

theorem Host.distant (host : Host) (t : ThreadId) (fuel : Nat) : (host.reentry fuel).Distant t :=
  ⟨host.genuine_reentry fuel, (host.keeps_foreign fuel).1, (host.keeps_foreign fuel).2⟩

end LuaMachine
