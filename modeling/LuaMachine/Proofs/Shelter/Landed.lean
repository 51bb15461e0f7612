import LuaMachine.Proofs.Shelter.Exposed
import LuaMachine.Proofs.Shelter.Marked

namespace LuaMachine

open Machine

theorem Error.eq_yield {e : Error} (h : e.isYield = true) : e = .yield := by
  cases e with
  | yield => rfl
  | _ => cases h

theorem Error.isYield_of_ne {e : Error} (h : e ≠ .yield) : e.isYield = false :=
  Bool.eq_false_iff.mpr fun hy => h (eq_yield hy)

abbrev Aloft (manners : Manners) (t : ThreadId) (n : Nat) (c : Counts) (o : Origin) (m₀ : Machine) :
    Condition :=
  Condition.Marked t (Thread.Counted c) (Shelter manners t n c.hostCalls o m₀)

abbrev Poised (manners : Manners) (t : ThreadId) (n : Nat) (c : Counts) (o : Origin) (m₀ : Machine) :
    Condition :=
  Condition.Marked t (Thread.Open manners.honest) (Aloft manners t n c o m₀)

/-- The thread is running with the lowest `n` frames of `m₀` and no others, or its yield is on its
way. -/
structure Landed (manners : Manners) (t : ThreadId) (n : Nat) (c : Counts) (m₀ : Machine)
    (yielding : Prop) (m : Machine) : Prop where
  intact : Intact t n m₀ m
  there : t.index < m.threads.size
  positive : 0 < n
  size : (m.threadAt t).frames.size = n
  parked : (m.threadAt t).parked = false
  status : (m.threadAt t).status = .yield → manners.tactful
  counts : (m.threadAt t).counts = c
  calm : manners.honest → (m.threadAt t).Calm c.hostCalls yielding

/-- The frame above the lowest `n` has ended and has given its results to the one below it. -/
def Handed (manners : Manners) (t : ThreadId) (n : Nat) (c : Counts) (vs : List Value) (wanted : Int)
    (m₀ m : Machine) : Prop :=
  ∃ m', m = m'.modifyTop t (·.pushAll (adjust vs wanted)) ∧ Landed manners t n c m₀ False m'

structure Dropped (manners : Manners) (t : ThreadId) (n : Nat) (c : Counts) (site : CallSite)
    (wanted : Int) (m₀ : Machine) (e : Error) (m : Machine) : Prop where
  landed : Landed manners t n c m₀ (e.isYield = true) m
  pending : manners.honest → e = .yield →
    (m.threadAt t).pending = some { site, wanted, base := (m.frameAt t).top }

variable {manners : Manners} {t : ThreadId} {n h : Nat} {c : Counts} {o : Origin} {m₀ m m' : Machine}
  {y : Bool} {yielding : Prop} {site : CallSite} {wanted : Int} {vs : List Value}

theorem Thread.Calm.counted {th : Thread} (hc : manners.honest → th.Calm h yielding) (hn : th.counts = c) :
    manners.honest → th.Calm c.hostCalls yielding := fun hh => by
  have he : c.hostCalls = h := hn ▸ (hc hh).1
  rw [he]
  exact hc hh

namespace Landed

theorem frameCount (hm : Landed manners t n c m₀ yielding m) (ht : m.running = t) :
    m.frameCount = n := by
  subst ht
  exact hm.size

theorem congr {p q : Prop} (h : p ↔ q) (hm : Landed manners t n c m₀ p m) :
    Landed manners t n c m₀ q m := propext h ▸ hm

theorem still {p : Prop} (hm : Landed manners t n c m₀ p m) (hp : manners.honest → ¬p) :
    Landed manners t n c m₀ False m :=
  { hm with calm := fun hh =>
      ⟨(hm.calm hh).1, fun hf => hf.elim, .inl ((hm.calm hh).3.resolve_right (hp hh))⟩ }

theorem trans {m₁ : Machine} (hi : Intact t n m₁ m₀) (hm : Landed manners t n c m₀ yielding m) :
    Landed manners t n c m₁ yielding m := { hm with intact := hi.trans hm.intact }

theorem refl (hm : Landed manners t n c m₀ yielding m) : Landed manners t n c m yielding m :=
  { hm with intact := .refl t n m }

theorem exposed (hm : Landed manners t n c m₀ yielding m) (hn : 1 < n)
    (hh : manners.honest → c.hostCalls = h) : Exposed manners t n h m₀ yielding m :=
  ⟨hm.intact, hm.size, hn, hm.parked, hm.status, fun ho => hh ho ▸ hm.calm ho⟩

theorem ofFrames {m₁ : Machine} (hm : Landed manners t n c m₀ yielding m) {fs : Array Frame}
    (ht : m'.threadAt t = { m.threadAt t with frames := fs }) (hs : fs.size = n)
    (hth : m'.threads.size = m.threads.size) (hi : Intact t n m₁ m') :
    Landed manners t n c m₁ yielding m' where
  intact := hi
  there := hth ▸ hm.there
  positive := hm.positive
  size := by rw [ht]; exact hs
  parked := by rw [ht]; exact hm.parked
  status := by rw [ht]; exact hm.status
  counts := by rw [ht]; exact hm.counts
  calm hh := by rw [ht]; exact ⟨(hm.calm hh).1, (hm.calm hh).2, (hm.calm hh).3⟩

theorem top (hm : Landed manners t n c m₀ yielding m) (g : Frame → Frame) :
    Landed manners t n c (m.modifyTop t g) yielding (m.modifyTop t g) :=
  hm.ofFrames (m.threadAt_modify_there hm.there _) ((size_modifyFrames ..).trans hm.size)
    (Array.size_modify ..) (.refl ..)

theorem taken (hm : Landed manners t n c m₀ yielding m) (ht : m.running = t) (nargs : Nat) :
    Landed manners t n c ((m.modifyTop m.running (·.drop nargs)).modifyTop m.running (·.drop 1))
      yielding ((m.modifyTop m.running (·.drop nargs)).modifyTop m.running (·.drop 1)) := by
  subst ht
  exact (hm.top _).top _

theorem counts_enterFrame (hm : Landed manners t n c m₀ yielding m) (f : Frame) :
    ((m.enterFrame t f).threadAt t).counts = c := by
  have ht : (m.enterFrame t f).threadAt t = _ := m.threadAt_modify_there hm.there _
  rw [ht]
  exact hm.counts

theorem cut (hm : Landed manners t n c m₀ yielding m) {k : Nat} (hk : n ≤ k) {us : Array Upvalue}
    (hu : Upvalue.Closes m.upvalues us) : Landed manners t n c m₀ yielding (m.cut t k us) := by
  have hs := hm.size
  refine hm.ofFrames (threadAt_cut_there hm.there) ?_ (Array.size_modify ..)
    (hm.intact.trans (intact_cut hm.there hu hk))
  rw [size_take]
  omega

theorem enterFrame (hm : Landed manners t n c m₀ False m) (f : Frame) :
    Aloft manners t n c f.origin m₀ t false (m.enterFrame t f) := by
  have ht : (m.enterFrame t f).threadAt t = _ := m.threadAt_modify_there hm.there _
  have hs := hm.size
  refine ⟨⟨hm.intact.trans ⟨List.prefix_rfl, fun _ _ _ ha => ha, fun i hi g hg => ⟨g, ?_, .refl⟩⟩,
    ?_, hm.positive, fun i hi g hg => ?_, ?_, ?_, fun hh => ?_⟩, ?_⟩
  · rw [ht, Array.getElem?_push, if_neg (by omega), hg]
  · rw [ht, Array.getElem?_push, if_pos hs.symm]
    rfl
  · rw [ht, Array.getElem?_eq_none (by rw [Array.size_push]; omega)] at hg
    cases hg
  · rw [ht]
    exact hm.parked
  · rw [ht]
    exact hm.status
  · have hc := hm.calm hh
    rw [ht]
    exact ⟨hc.1, fun hy => absurd hy.1 (by decide), .inl (hc.3.resolve_right id)⟩
  · rw [ht]
    exact hm.counts

theorem suspend (hm : Landed manners t n c m₀ True m) (p : Thread → Option PendingCall) :
    Landed manners t n c m₀ True { m with
      threads := m.threads.modify t.index fun th => { th with pending := p th } } := by
  have ht := m.threadAt_modify_there hm.there fun th => { th with pending := p th }
  refine ⟨hm.intact.trans ⟨List.prefix_rfl, fun _ _ _ ha => ha, fun i _ f hf =>
    ⟨f, by rw [ht]; exact hf, .refl⟩⟩, ?_, hm.positive, ?_, ?_, ?_, ?_, fun hh => ?_⟩
  · exact Nat.lt_of_lt_of_eq hm.there (Array.size_modify ..).symm
  · rw [ht]
    exact hm.size
  · rw [ht]
    exact hm.parked
  · rw [ht]
    exact hm.status
  · rw [ht]
    exact hm.counts
  · rw [ht]
    exact ⟨(hm.calm hh).1, (hm.calm hh).2, .inr trivial⟩

theorem counted (hm : Landed manners t n c m₀ yielding m) (c' : Counts)
    (hy : manners.honest → yielding → c'.hostCalls = 0) : Landed manners t n c' m₀ yielding { m with
      threads := m.threads.modify t.index fun th =>
        { th with hostCalls := c'.hostCalls, nesting := c'.nesting } } := by
  have ht := m.threadAt_modify_there hm.there fun th =>
    { th with hostCalls := c'.hostCalls, nesting := c'.nesting }
  refine ⟨hm.intact.trans ⟨List.prefix_rfl, fun _ _ _ ha => ha, fun i _ f hf =>
    ⟨f, by rw [ht]; exact hf, .refl⟩⟩, ?_, hm.positive, ?_, ?_, ?_, ?_, fun hh => ?_⟩
  · exact Nat.lt_of_lt_of_eq hm.there (Array.size_modify ..).symm
  · rw [ht]
    exact hm.size
  · rw [ht]
    exact hm.parked
  · rw [ht]
    exact hm.status
  · rw [ht]
    rfl
  · rw [ht]
    exact ⟨rfl, hy hh, (hm.calm hh).3⟩

end Landed

namespace Exposed

theorem landed (hm : Exposed manners t n h m₀ yielding m) :
    Landed manners t n (m.threadAt t).counts m₀ yielding m :=
  ⟨hm.intact, m.index_lt hm.ready.one_lt_size, Nat.zero_lt_of_lt hm.ready.many, hm.ready.size,
    hm.ready.parked, hm.ready.status, rfl, Thread.Calm.counted hm.ready.calm rfl⟩

end Exposed

theorem Handed.standing (hm : Handed manners t n c vs wanted m₀ m) :
    Landed manners t n c m False m := by
  obtain ⟨m', rfl, hm⟩ := hm
  exact hm.top _

theorem Handed.returned (hm : Handed manners t n c vs wanted m₀ m) (hn : 1 < n)
    (hh : manners.honest → c.hostCalls = h) : Returned manners t n h vs wanted m₀ m := by
  obtain ⟨m', rfl, hm⟩ := hm
  exact ⟨m', rfl, hm.exposed hn hh⟩

theorem Dropped.abandoned {e : Error} (hm : Dropped manners t n c site wanted m₀ e m) (hn : 1 < n)
    (hh : manners.honest → c.hostCalls = h) : Abandoned manners t n h site wanted m₀ e m :=
  ⟨hm.landed.exposed hn hh, hm.pending⟩

namespace Shelter

variable {r : ThreadId}

theorem aloft (hm : Shelter manners t n h o m₀ r y m) :
    Aloft manners t n (m.threadAt t).counts o m₀ r y m :=
  ⟨{ hm with calm := Thread.Calm.counted hm.calm rfl }, rfl⟩

end Shelter

namespace Aloft

variable {r : ThreadId}

theorem shelter (hm : Aloft manners t n c o m₀ r y m) (hh : manners.honest → c.hostCalls = h) :
    Shelter manners t n h o m₀ r y m :=
  { hm.kept with calm := fun ho => hh ho ▸ hm.kept.calm ho }

theorem standing (hm : Aloft manners t n c o m₀ t y m) (ht : m.running = t) :
    Landed manners t m.frameCount c m (y = true) m := by
  have hs := hm.kept.one_lt_size
  subst ht
  exact ⟨.refl .., hm.kept.index_lt, Nat.zero_lt_of_lt hs, rfl, hm.kept.parked, hm.kept.status,
    hm.mark, fun hh => ⟨(hm.kept.calm hh).1, fun hy => (hm.kept.calm hh).2 ⟨hy, rfl⟩,
      (hm.kept.calm hh).3.imp id And.left⟩⟩

theorem ready (hm : Aloft manners t n c o m₀ t false m) (ht : m.running = t) :
    Landed manners t m.frameCount c m False m := (hm.standing ht).congr (by simp)

theorem cut (hm : Aloft manners t n c o m₀ r y m) {k : Nat} {us : Array Upvalue} (hk : n < k)
    (hu : Upvalue.Closes m.upvalues us) : Aloft manners t n c o m₀ r y (m.cut t k us) :=
  hm.of (record_modify ({ m with upvalues := us } : Machine) t t fun _ => rfl) (hm.kept.cut hk hu)

theorem landed (hm : Aloft manners t n c o m₀ t y m) {us : Array Upvalue}
    (hu : Upvalue.Closes m.upvalues us) : Landed manners t n c m₀ (y = true) (m.cut t n us) := by
  have ht : (m.cut t n us).threadAt t = _ := threadAt_cut hm.kept.one_lt_size
  have hs := hm.kept.size_lt
  refine ⟨hm.kept.intact.trans (intact_cut hm.kept.index_lt hu (Nat.le_refl n)), ?_, hm.kept.positive,
    ?_, ?_, ?_, ?_, fun hh => ?_⟩
  · exact Nat.lt_of_lt_of_eq hm.kept.index_lt (Array.size_modify ..).symm
  · rw [ht, size_take]
    omega
  · rw [ht, hm.kept.parked]
  · rw [ht]
    exact hm.kept.status
  · rw [ht]
    exact hm.mark
  · have hc := hm.kept.calm hh
    rw [ht]
    exact ⟨hc.1, fun hy => hc.2 ⟨hy, rfl⟩, hc.3.imp id And.left⟩

theorem widen (hm : Aloft manners t n c o m₀ t false m) {k : Nat} {o' : Origin} (hk : n < k)
    (hs : k ≤ (m.threadAt t).frames.size) (ho : o'.site ≠ .host)
    (hx : Aloft manners t k c o' m t y m') : Aloft manners t n c o m₀ t y m' :=
  ⟨hm.kept.widen hk hs ho hx.kept, hx.mark⟩

theorem ofLanded (hm : Aloft manners t n c o m₀ t false m) {k : Nat} (hk : n < k)
    (hs : k ≤ (m.threadAt t).frames.size) (hx : Landed manners t k c m (y = true) m') :
    Aloft manners t n c o m₀ t y m' :=
  have hn : 1 < k := Nat.lt_of_le_of_lt hm.kept.positive hk
  ⟨hm.kept.ofExposed hk hs (hx.exposed hn fun _ => rfl), hx.counts⟩

theorem ofHanded (hm : Aloft manners t n c o m₀ t false m) {k : Nat} (hk : n < k)
    (hs : k ≤ (m.threadAt t).frames.size) (hx : Handed manners t k c vs wanted m m') :
    Aloft manners t n c o m₀ t false m' := by
  obtain ⟨m₁, rfl, hx⟩ := hx
  exact Condition.Steady.top _ _ (hm.ofLanded hk hs (hx.congr (by simp)))

theorem poised (hm : Aloft manners t n c o m₀ r y m)
    (hp : manners.honest → y = true → r = t → (m.threadAt t).Waits) :
    Poised manners t n c o m₀ r y m := ⟨hm, fun hh hy => hp hh hy.1 hy.2⟩

theorem poisedQuiet (hm : Aloft manners t n c o m₀ r false m) : Poised manners t n c o m₀ r false m :=
  hm.poised fun _ => nofun

end Aloft
end LuaMachine
