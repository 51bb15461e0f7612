import LuaMachine.Proofs.Shelter.Landed

namespace LuaMachine

open Machine

/-- What an ordinary native function does not change for good. -/
def Thread.seal (n : Nat) (th : Thread) : Nat × Option (Option Guard) × Option PendingCall :=
  (th.frames.size, (th.frames[n]?).map Frame.guard, th.pending)

theorem seal_modifyLevel (m : Machine) (t t' : ThreadId) (n level : Nat) {g : Frame → Frame}
    (hg : ∀ f, (g f).guard = f.guard) :
    ((m.modifyLevel t' level g).threadAt t).seal n = (m.threadAt t).seal n := by
  rw [modifyLevel, threadAt_modify]
  split
  · unfold Thread.seal
    rw [size_modifyFrames, modifyFrames, Array.getElem?_modify]
    split
    · cases (m.threadAt t).frames[n]? with
      | none => rfl
      | some f => simp [hg]
    · rfl
  · rfl

theorem seal_modifyTop (m : Machine) (t t' : ThreadId) (n : Nat) {g : Frame → Frame}
    (hg : ∀ f, (g f).guard = f.guard) :
    ((m.modifyTop t' g).threadAt t).seal n = (m.threadAt t).seal n := by
  rw [modifyTop_eq]
  exact seal_modifyLevel m t t' n _ hg

def Origin.Native (o : Origin) (m : Machine) : Prop :=
  ∃ f b, o.function = some f ∧ f.index < m.functions.size ∧ (m.functionAt f).body = .native b

structure Solo (manners : Manners) (t : ThreadId) (n h : Nat) (o : Origin) (m₀ : Machine)
    (r : ThreadId) (y : Bool) (m : Machine) : Prop where
  shelter : Shelter manners t n h o m₀ r y m
  size : (m.threadAt t).frames.size = n + 1
  unguarded : ((m.threadAt t).frames[n]?).map Frame.guard = some none
  pending : manners.honest → (m.threadAt t).pending = none

namespace Solo

variable {manners : Manners} {t : ThreadId} {n h : Nat} {o : Origin} {m₀ m m' : Machine} {r r' : ThreadId}
  {y y' : Bool}

theorem ofSeal (hm : Solo manners t n h o m₀ r y m)
    (hs : (m'.threadAt t).seal n = (m.threadAt t).seal n)
    (hm' : Shelter manners t n h o m₀ r' y' m') : Solo manners t n h o m₀ r' y' m' := by
  simp only [Thread.seal, Prod.mk.injEq] at hs
  exact ⟨hm', hs.1.trans hm.size, hs.2.1.trans hm.unguarded, fun hh => hs.2.2.trans (hm.pending hh)⟩

theorem ofThread (hm : Solo manners t n h o m₀ r y m) (ht : m'.threadAt t = m.threadAt t)
    (hm' : Shelter manners t n h o m₀ r' y' m') : Solo manners t n h o m₀ r' y' m' :=
  hm.ofSeal (by rw [ht]) hm'

theorem onThread (hm : Solo manners t n h o m₀ r y m) (t' : ThreadId) (g : Thread → Thread)
    (hg : ∀ th, (g th).seal n = th.seal n)
    (hm' : Shelter manners t n h o m₀ r' y' { m with threads := m.threads.modify t'.index g }) :
    Solo manners t n h o m₀ r' y' { m with threads := m.threads.modify t'.index g } := by
  refine hm.ofSeal ?_ hm'
  rw [threadAt_modify]
  split
  · exact hg _
  · rfl

instance homed : Condition.Homed t (Solo manners t n h o m₀) where
  many hm := hm.shelter.one_lt_size
  parked hm := hm.shelter.parked
  moved hy hy' ht ha hf hm :=
    hm.ofThread ht (Condition.Homed.moved hy hy' ht ha hf hm.shelter)
  phase t' phase hm := hm.onThread t' _ (fun _ => rfl) (Condition.Homed.phase t t' phase hm.shelter)

instance stable : Condition.Stable (Solo manners t n h o m₀) where
  heap m m' ht hu hf hl hm := hm.ofThread (by rw [threadAt, ht, threadAt])
    (Condition.Neat.heap m m' ht hu hf hl hm.shelter)
  closed v hm := hm.ofThread rfl (Condition.Neat.closed v hm.shelter)
  assigned u v w hu hm := hm.ofThread rfl (Condition.Neat.assigned u v w hu hm.shelter)
  closing {r _ m} start hm := hm.ofSeal
    (seal_modifyTop (m.closeAll ((m.frameAt r).captured.filter (start ≤ ·.1))) t r n fun _ => rfl)
    (Condition.Neat.closing start hm.shelter)
  capturing {r _ m} slot hf hs hm := hm.ofSeal
    (seal_modifyTop ({ m with upvalues := m.upvalues.push _ } : Machine) t r n fun _ => rfl)
    (Condition.Neat.capturing slot hf hs hm.shelter)
  top {_ _ m} t' g hg hm := hm.ofSeal (seal_modifyTop m t t' n hg.guard)
    (Condition.Steady.top t' g hm.shelter)
  frame m m' g hg hm hm' := hm'.ofSeal (seal_modifyLevel m' t _ n _ hg.guard)
    (Condition.Steady.frame m m' g hm.shelter hm'.shelter)
  register {r y m} u p v hu hm := hm.ofSeal (seal_modifyLevel m t _ n _ fun _ => rfl)
    (Condition.Neat.register u p v hu hm.shelter)
  thread hm := hm.ofThread (threadAt_push _ hm.shelter.one_lt_size _)
    (Condition.Steady.thread hm.shelter)
  transfer vs hm := hm.onThread _ _ (fun _ => rfl) (Condition.Steady.transfer vs hm.shelter)
  inThread t' _ hx := ⟨fun _ hm => Condition.Homed.inThread t t' hm.2 fun m' hr hm' =>
    (hx.ends m' ⟨⟨rfl, hm'⟩, fun _ => Condition.Homed.away_of_ne t hr⟩).imp fun _ _ h => h.1⟩

end Solo

abbrev Sole (manners : Manners) (t : ThreadId) (n : Nat) (c : Counts) (o : Origin) (m₀ : Machine) :
    Condition :=
  Condition.Marked t (Thread.Counted c) (Solo manners t n c.hostCalls o m₀)

namespace Sole

variable {manners : Manners} {t : ThreadId} {n : Nat} {c : Counts} {o : Origin} {m₀ m : Machine}
  {r : ThreadId} {y : Bool}

theorem aloft (hm : Sole manners t n c o m₀ r y m) : Aloft manners t n c o m₀ r y m :=
  ⟨hm.kept.shelter, hm.mark⟩

theorem enterFrame (hm : Landed manners t n c m₀ False m) {f : Frame} (hf : f.guard = none) :
    Sole manners t n c f.origin m₀ t false (m.enterFrame t f) := by
  have ht : (m.enterFrame t f).threadAt t = _ := m.threadAt_modify_there hm.there _
  have hs := hm.size
  refine ⟨⟨(hm.enterFrame f).kept, ?_, ?_, fun hh => ?_⟩, (hm.enterFrame f).mark⟩
  · rw [ht, ← hs]
    exact Array.size_push ..
  · rw [ht, Array.getElem?_push, if_pos hs.symm, Option.map_some, hf]
  · rw [ht]
    exact (hm.calm hh).3.resolve_right id

end Sole
end LuaMachine
