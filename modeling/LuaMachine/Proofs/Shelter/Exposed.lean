import LuaMachine.Proofs.Shelter.Stable

namespace LuaMachine

open Machine

/-- A thread with `n` frames that is running, or whose yield is on its way. -/
structure Thread.Ready (manners : Manners) (n h : Nat) (yielding : Prop) (th : Thread) : Prop where
  size : th.frames.size = n
  many : 1 < n
  parked : th.parked = false
  status : th.status = .yield → manners.tactful
  calm : manners.honest → th.Calm h yielding

structure Exposed (manners : Manners) (t : ThreadId) (n h : Nat) (m₀ : Machine) (yielding : Prop)
    (m : Machine) : Prop where
  intact : Intact t n m₀ m
  ready : (m.threadAt t).Ready manners n h yielding

def Returned (manners : Manners) (t : ThreadId) (n h : Nat) (vs : List Value) (wanted : Int)
    (m₀ m : Machine) : Prop :=
  ∃ m', m = m'.modifyTop t (·.pushAll (adjust vs wanted)) ∧ Exposed manners t n h m₀ False m'

/-- An error has removed the frame above the lowest `n`. A yield has left its call open. -/
structure Abandoned (manners : Manners) (t : ThreadId) (n h : Nat) (site : CallSite) (wanted : Int)
    (m₀ : Machine) (e : Error) (m : Machine) : Prop where
  exposed : Exposed manners t n h m₀ (e.isYield = true) m
  pending : manners.honest → e = .yield →
    (m.threadAt t).pending = some { site, wanted, base := (m.frameAt t).top }

variable {manners : Manners} {t : ThreadId} {n h : Nat} {o : Origin} {m₀ m m' : Machine} {r : ThreadId}
  {y : Bool} {yielding : Prop}

theorem Thread.Ready.frameCount (hm : (m.threadAt t).Ready manners n h yielding)
    (ht : m.running = t) : m.frameCount = n := by
  subst ht
  exact hm.size

theorem Thread.Ready.one_lt_size (hm : (m.threadAt t).Ready manners n h yielding) :
    1 < (m.threadAt t).frames.size := hm.size ▸ hm.many

theorem Thread.Ready.exposed (hm : (m.threadAt t).Ready manners n h yielding) :
    Exposed manners t n h m yielding m := ⟨.refl t n m, hm⟩

namespace Shelter

theorem lt_frameCount (hm : Shelter manners t n h o m₀ r y m) (ht : m.running = t) :
    n < m.frameCount := by
  subst ht
  exact hm.size_lt

theorem ready (hm : Shelter manners t n h o m₀ t false m) (ht : m.running = t) :
    (m.threadAt t).Ready manners m.frameCount h False := by
  have hs := hm.one_lt_size
  subst ht
  exact ⟨rfl, hs, hm.parked, hm.status, fun hh => ⟨(hm.calm hh).1, fun hf => hf.elim,
    .inl ((hm.calm hh).3.resolve_right fun hf => absurd hf.1 (by decide))⟩⟩

theorem cut (hm : Shelter manners t n h o m₀ r y m) {k : Nat} {us : Array Upvalue} (hk : n < k)
    (hu : Upvalue.Closes m.upvalues us) : Shelter manners t n h o m₀ r y (m.cut t k us) := by
  refine hm.ofFrames (threadAt_cut hm.one_lt_size) (fun i hi f hf => ⟨f, ?_, .refl⟩) ?_
    (fun i hi f hf => ?_) (fun _ _ _ => aliased_cut hu) List.prefix_rfl
  · rw [getElem?_take, if_pos (by omega), hf]
  · rw [getElem?_take, if_pos hk, hm.origin]
  · rw [getElem?_take] at hf
    split at hf
    · exact hm.sites i hi f hf
    · cases hf

theorem ofIntact (hm : Shelter manners t n h o m₀ r y m) {y' : Bool} (hi : Intact t (n + 1) m m')
    (hs : ∀ i > n, ∀ f, (m'.threadAt t).frames[i]? = some f → f.site ≠ .host)
    (hp : (m'.threadAt t).parked = false) (hst : (m'.threadAt t).status = .yield → manners.tactful)
    (hc : manners.honest → (m'.threadAt t).Calm h (y' = true ∧ r = t)) :
    Shelter manners t n h o m₀ r y' m' where
  intact := hm.intact.trans (hi.mono (Nat.le_succ n))
  origin := by
    have ho := hm.origin
    cases hf : (m.threadAt t).frames[n]? with
    | none =>
      rw [hf] at ho
      cases ho
    | some f =>
      obtain ⟨g, hg, hk⟩ := hi.frames n (Nat.lt_succ_self n) f hf
      rw [hf] at ho
      rw [hg, ← ho]
      exact congrArg some (congrArg Frame.origin hk.1 : g.control.origin = f.control.origin)
  positive := hm.positive
  sites := hs
  parked := hp
  status := hst
  calm := hc

theorem sites_of_intact (hm : Shelter manners t n h o m₀ r y m) {k : Nat} (hi : Intact t k m m')
    {i : Nat} (hn : n < i) (hk : i < k) (hs : k ≤ (m.threadAt t).frames.size) {f : Frame}
    (hf : (m'.threadAt t).frames[i]? = some f) : f.site ≠ .host := by
  have hf₀ := Array.getElem?_eq_getElem (Nat.lt_of_lt_of_le hk hs)
  obtain ⟨g, hg, hfg⟩ := hi.frames i hk _ hf₀
  rw [hf] at hg
  obtain rfl := Option.some.inj hg
  have he : f.site = (m.threadAt t).frames[i].site :=
    (congrArg Frame.site hfg.1 : f.control.site = (m.threadAt t).frames[i].control.site)
  rw [he]
  exact hm.sites i hn _ hf₀

theorem widen (hm : Shelter manners t n h o m₀ t false m) {k : Nat} {o' : Origin} (hk : n < k)
    (hs : k ≤ (m.threadAt t).frames.size) (ho : o'.site ≠ .host)
    (hx : Shelter manners t k h o' m t y m') : Shelter manners t n h o m₀ t y m' := by
  refine hm.ofIntact (hx.intact.mono hk) (fun i hi f hf => ?_) hx.parked hx.status hx.calm
  by_cases hik : i < k
  · exact hm.sites_of_intact hx.intact hi hik hs hf
  · by_cases he : i = k
    · subst he
      have h' := hx.origin
      rw [hf] at h'
      have h' : f.origin = o' := Option.some.inj h'
      exact fun hc => ho (h' ▸ hc)
    · exact hx.sites i (by omega) f hf

theorem ofExposed {y₀ : Bool} (hm : Shelter manners t n h o m₀ t y₀ m) {k : Nat} (hk : n < k)
    (hs : k ≤ (m.threadAt t).frames.size) (hx : Exposed manners t k h m (y = true) m') :
    Shelter manners t n h o m₀ t y m' := by
  refine hm.ofIntact (hx.intact.mono hk) (fun i hi f hf => ?_) hx.ready.parked hx.ready.status
    fun hh => ⟨(hx.ready.calm hh).1, fun hy => (hx.ready.calm hh).2 hy.1,
      (hx.ready.calm hh).3.imp id fun hy => ⟨hy, rfl⟩⟩
  by_cases hik : i < k
  · exact hm.sites_of_intact hx.intact hi hik hs hf
  · rw [Array.getElem?_eq_none (by rw [hx.ready.size]; omega)] at hf
    cases hf

end Shelter

namespace Exposed

theorem frameCount (hm : Exposed manners t n h m₀ yielding m) (ht : m.running = t) :
    m.frameCount = n := hm.ready.frameCount ht

theorem enterFrame (hm : Exposed manners t n h m₀ False m) (f : Frame) :
    Shelter manners t n h f.origin m₀ t false (m.enterFrame t f) := by
  have ht := m.threadAt_enterFrame hm.ready.one_lt_size f
  have hn := hm.ready.many
  have hs := hm.ready.size
  refine ⟨hm.intact.trans ⟨List.prefix_rfl, fun _ _ _ ha => ha, fun i hi g hg => ⟨g, ?_, .refl⟩⟩,
    ?_, by omega, fun i hi g hg => ?_, ?_, ?_, fun hh => ?_⟩
  · rw [ht, Array.getElem?_push, if_neg (by omega), hg]
  · rw [ht, Array.getElem?_push, if_pos hs.symm]
    rfl
  · rw [ht, Array.getElem?_eq_none (by rw [Array.size_push]; omega)] at hg
    cases hg
  · rw [ht]
    exact hm.ready.parked
  · rw [ht]
    exact hm.ready.status
  · have hc := hm.ready.calm hh
    rw [ht]
    exact ⟨hc.1, fun hy => absurd hy.1 (by decide), .inl (hc.3.resolve_right id)⟩

theorem congr {p q : Prop} (h : p ↔ q) {k : Nat} (hm : Exposed manners t n k m₀ p m) :
    Exposed manners t n k m₀ q m := propext h ▸ hm

/-- Unless yields are honest it makes no difference whether one is on its way. -/
theorem still {p : Prop} {k : Nat} (hm : Exposed manners t n k m₀ p m) (hp : manners.honest → ¬p) :
    Exposed manners t n k m₀ False m :=
  ⟨hm.intact, hm.ready.size, hm.ready.many, hm.ready.parked, hm.ready.status, fun hh =>
    ⟨(hm.ready.calm hh).1, fun hf => hf.elim, .inl ((hm.ready.calm hh).3.resolve_right (hp hh))⟩⟩

theorem trans {m₁ : Machine} (hi : Intact t n m₁ m₀)
    (hm : Exposed manners t n h m₀ yielding m) : Exposed manners t n h m₁ yielding m :=
  ⟨hi.trans hm.intact, hm.ready⟩

end Exposed
end LuaMachine
