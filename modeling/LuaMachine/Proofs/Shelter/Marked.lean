import LuaMachine.Proofs.Shelter.Elsewhere

namespace LuaMachine

open Machine

/-- How many calls are in progress in a thread: those that the host waits for, and all of them. -/
structure Counts where
  hostCalls : Nat
  nesting : Nat
deriving DecidableEq

def Thread.counts (th : Thread) : Counts := ⟨th.hostCalls, th.nesting⟩

def Thread.record (th : Thread) : Counts × Option PendingCall := (th.counts, th.pending)

/-- A statement about what is recorded of a thread, and about whether its yield is on its way. -/
class Thread.Mark (P : Prop → Thread → Prop) : Prop where
  congr : ∀ {yielding th th'}, th'.record = th.record → P yielding th → P yielding th'

structure Condition.Marked (t : ThreadId) (P : Prop → Thread → Prop) (K : Condition) (r : ThreadId)
    (y : Bool) (m : Machine) : Prop where
  kept : K r y m
  mark : P (y = true ∧ r = t) (m.threadAt t)

theorem record_modify (m : Machine) (t t' : ThreadId) {g : Thread → Thread}
    (hg : ∀ th, (g th).record = th.record) :
    (({ m with threads := m.threads.modify t'.index g } : Machine).threadAt t).record =
      (m.threadAt t).record := by
  rw [threadAt_modify]
  split
  · exact hg _
  · rfl

namespace Condition.Marked

variable {t : ThreadId} {P : Prop → Thread → Prop} [hP : Thread.Mark P] {K : Condition}
  {r r' : ThreadId} {y y' : Bool} {m m' : Machine}

theorem of (hm : Marked t P K r y m) (hr : (m'.threadAt t).record = (m.threadAt t).record)
    (hm' : K r y m') : Marked t P K r y m' := ⟨hm', hP.congr hr hm.mark⟩

theorem modify (hm : Marked t P K r y m) (t' : ThreadId) (g : Thread → Thread)
    (hg : ∀ th, (g th).record = th.record)
    (hm' : K r y { m with threads := m.threads.modify t'.index g }) :
    Marked t P K r y { m with threads := m.threads.modify t'.index g } :=
  hm.of (record_modify m t t' hg) hm'

instance homed [hK : K.Homed t] : Condition.Homed t (Marked t P K) where
  many hm := hK.many hm.kept
  parked hm := hK.parked hm.kept
  moved {r y m r' y' m'} hy hy' ht ha hf hm := by
    have hn : ¬(y = true ∧ r = t) := fun h => hy h.1 h.2
    have hn' : ¬(y' = true ∧ r' = t) := fun h => hy' h.1 h.2
    refine ⟨hK.moved hy hy' ht ha hf hm.kept, ?_⟩
    rw [ht, eq_false hn', ← eq_false hn]
    exact hm.mark
  phase t' phase hm := hm.modify t' _ (fun _ => rfl) (hK.phase t' phase hm.kept)

instance stable [K.Homed t] [hK : K.Stable] : Condition.Stable (Marked t P K) where
  heap m m' ht hu hf hl hm := hm.of (by rw [threadAt, ht, threadAt])
    (hK.heap m m' ht hu hf hl hm.kept)
  closed v hm := hm.of rfl (hK.closed v hm.kept)
  assigned u v w hu hm := hm.of rfl (hK.assigned u v w hu hm.kept)
  closing {r _ m} start hm := hm.of
    (record_modify (m.closeAll ((m.frameAt r).captured.filter (start ≤ ·.1))) t r fun _ => rfl)
    (hK.closing start hm.kept)
  capturing {r _ m} slot hf hs hm := hm.of
    (record_modify ({ m with upvalues := m.upvalues.push _ } : Machine) t r fun _ => rfl)
    (hK.capturing slot hf hs hm.kept)
  top t' g _ hm := hm.modify t' _ (fun _ => rfl) (hK.top t' g hm.kept)
  frame m m' g _ hm hm' := hm'.modify _ _ (fun _ => rfl) (hK.frame m m' g hm.kept hm'.kept)
  register u p v hu hm := hm.modify _ _ (fun _ => rfl) (hK.register u p v hu hm.kept)
  thread hm := hm.of
    (congrArg Thread.record (threadAt_push _ (Condition.Homed.many (t := t) hm.kept) _))
    (hK.thread hm.kept)
  transfer vs hm := hm.modify _ _ (fun _ => rfl) (hK.transfer vs hm.kept)
  inThread t' _ hx := ⟨fun _ hm => Condition.Homed.inThread t t' hm.2 fun m' hr hm' =>
    (hx.ends m' ⟨⟨rfl, hm'⟩, fun _ => Condition.Homed.away_of_ne t hr⟩).imp fun _ _ h => h.1⟩

end Condition.Marked

namespace Thread

def Counted (c : Counts) (_ : Prop) (th : Thread) : Prop := th.counts = c

instance Counted.mark (c : Counts) : Mark (Counted c) :=
  ⟨fun hr h => (congrArg Prod.fst hr).trans h⟩

/-- A call has been left open, and not one by the host. -/
def Waits (th : Thread) : Prop := ∃ call, th.pending = some call ∧ call.site ≠ .host

theorem Waits.isSome {th : Thread} (h : th.Waits) : th.pending.isSome = true := by
  obtain ⟨call, hc, -⟩ := h
  rw [hc, Option.isSome_some]

def Open (honest : Prop) (yielding : Prop) (th : Thread) : Prop := honest → yielding → th.Waits

instance Open.mark (honest : Prop) : Mark (Open honest) :=
  ⟨fun hr h hh hy => (h hh hy).imp fun _ hc => ⟨(congrArg Prod.snd hr).trans hc.1, hc.2⟩⟩

end Thread
end LuaMachine
