import LuaMachine.Proofs.Shelter.Elsewhere

namespace LuaMachine

open Machine

/-- What is known of the scripts of a host. -/
structure Manners where
  /-- They yield by the operation for it only. -/
  honest : Prop
  /-- They do not resume the thread that they run in. -/
  tactful : Prop

instance : Coe Prop Manners := ⟨fun honest => ⟨honest, False⟩⟩

/-- How a thread stands that is running. With `h` host calls in progress it may only yield if there
are none of them, and only a yield on its way can leave a call open. -/
structure Thread.Calm (h : Nat) (yielding : Prop) (th : Thread) : Prop where
  hostCalls : th.hostCalls = h
  yieldable : yielding → h = 0
  pending : th.pending = none ∨ yielding

/-- The frames of thread `t` below level `n` are those of `m₀`, and there is a frame at that level.
The host waits for none of the frames above it. If all yields are honest, the thread is calm; if a script
may resume the thread that it runs in, the thread has not yielded before, which is what would let it. -/
structure Shelter (manners : Manners) (t : ThreadId) (n h : Nat) (o : Origin) (m₀ : Machine)
    (r : ThreadId) (y : Bool) (m : Machine) : Prop where
  intact : Intact t n m₀ m
  origin : ((m.threadAt t).frames[n]?).map Frame.origin = some o
  positive : 0 < n
  sites : ∀ i > n, ∀ f, (m.threadAt t).frames[i]? = some f → f.site ≠ .host
  parked : (m.threadAt t).parked = false
  status : (m.threadAt t).status = .yield → manners.tactful
  calm : manners.honest → (m.threadAt t).Calm h (y = true ∧ r = t)

namespace Shelter

variable {manners : Manners} {t : ThreadId} {n h : Nat} {o : Origin} {m₀ : Machine} {r : ThreadId}
  {y : Bool} {m m' : Machine}

theorem size_lt (hm : Shelter manners t n h o m₀ r y m) : n < (m.threadAt t).frames.size := by
  have ho := hm.origin
  refine Nat.not_le.mp fun hc => ?_
  rw [Array.getElem?_eq_none hc] at ho
  cases ho

theorem one_lt_size (hm : Shelter manners t n h o m₀ r y m) : 1 < (m.threadAt t).frames.size := by
  have := hm.size_lt
  have := hm.positive
  omega

theorem index_lt (hm : Shelter manners t n h o m₀ r y m) : t.index < m.threads.size :=
  m.index_lt hm.one_lt_size

theorem ofFrames (hm : Shelter manners t n h o m₀ r y m) {fs : Array Frame}
    (ht : m'.threadAt t = { m.threadAt t with frames := fs })
    (hl : ∀ i < n, ∀ f, (m.threadAt t).frames[i]? = some f →
      ∃ g, fs[i]? = some g ∧ f.Kept (m.Aliased t i) g)
    (ho : (fs[n]?).map Frame.origin = some o)
    (hs : ∀ i > n, ∀ f, fs[i]? = some f → f.site ≠ .host)
    (ha : ∀ i < n, ∀ s, m'.Aliased t i s → m.Aliased t i s)
    (hf : m.functions.toList <+: m'.functions.toList) : Shelter manners t n h o m₀ r y m' where
  intact := hm.intact.trans ⟨hf, ha, fun i hi f hif => by
    rw [ht]
    exact hl i hi f hif⟩
  origin := by rw [ht]; exact ho
  positive := hm.positive
  sites := by rw [ht]; exact hs
  parked := by rw [ht]; exact hm.parked
  status := by rw [ht]; exact hm.status
  calm hh := by rw [ht]; exact ⟨(hm.calm hh).1, (hm.calm hh).2, (hm.calm hh).3⟩

theorem ofThread (hm : Shelter manners t n h o m₀ r y m) (ht : m'.threadAt t = m.threadAt t)
    (ha : ∀ i < n, ∀ s, m'.Aliased t i s → m.Aliased t i s)
    (hf : m.functions.toList <+: m'.functions.toList) : Shelter manners t n h o m₀ r y m' :=
  hm.ofFrames ht (fun _ _ f hf => ⟨f, hf, .refl⟩) hm.origin hm.sites ha hf

theorem onThread (hm : Shelter manners t n h o m₀ r y m) (t' : ThreadId) (g : Thread → Thread)
    (hg : ∀ th, (g th).frames = th.frames ∧ (g th).parked = th.parked ∧
      (g th).status = th.status ∧ (g th).hostCalls = th.hostCalls ∧ (g th).pending = th.pending) :
    Shelter manners t n h o m₀ r y { m with threads := m.threads.modify t'.index g } := by
  by_cases ht : t = t'
  · subst ht
    have hth := threadAt_modify_self m hm.one_lt_size g
    obtain ⟨hfr, hp, hs, hc, hpe⟩ := hg (m.threadAt t)
    refine ⟨hm.intact.trans ⟨List.prefix_rfl, fun _ _ _ ha => ha, fun i _ f hf => ⟨f, ?_, .refl⟩⟩,
      ?_, hm.positive, ?_, ?_, ?_, fun hh => ?_⟩
    · rw [hth, hfr, hf]
    · rw [hth, hfr, hm.origin]
    · rw [hth, hfr]; exact hm.sites
    · rw [hth, hp, hm.parked]
    · rw [hth, hs]; exact hm.status
    · have hcalm := hm.calm hh
      rw [hth]
      exact ⟨hc.trans hcalm.1, hcalm.2, hpe ▸ hcalm.3⟩
  · exact hm.ofThread (threadAt_modify_ne m ht g) (fun _ _ _ ha => ha) List.prefix_rfl

theorem sites_modify {fs : Array Frame} (hs : ∀ i > n, ∀ f, fs[i]? = some f → f.site ≠ .host)
    (level : Nat) (g : Frame → Frame) [hg : Frame.Benign g] :
    ∀ i > n, ∀ f, (modifyFrames level g fs)[i]? = some f → f.site ≠ .host := by
  intro i hi f hf
  rw [modifyFrames, Array.getElem?_modify] at hf
  split at hf
  · obtain ⟨f', hf', rfl⟩ := Option.map_eq_some_iff.mp hf
    have ho : (g f').site = f'.site := congrArg Origin.site (hg.origin f')
    rw [ho]
    exact hs i hi f' hf'
  · exact hs i hi f hf

theorem onLevel (hm : Shelter manners t n h o m₀ r y m) (t' : ThreadId) (level : Nat)
    (g : Frame → Frame) [hg : Frame.Benign g] (hl : t' = t → n ≤ level) :
    Shelter manners t n h o m₀ r y (m.modifyLevel t' level g) := by
  by_cases ht : t = t'
  · subst ht
    refine hm.ofFrames (threadAt_modify_self m hm.one_lt_size _) (fun i hi f hf => ⟨f, ?_, .refl⟩)
      ?_ (sites_modify hm.sites level g) (fun _ _ _ ha => ha) List.prefix_rfl
    · have hne : level ≠ i := by have := hl rfl; omega
      rw [modifyFrames, Array.getElem?_modify, if_neg hne, hf]
    · have ho := hm.origin
      rw [modifyFrames, Array.getElem?_modify]
      split
      · cases hf : (m.threadAt t).frames[n]? with
        | none => rw [hf] at ho; cases ho
        | some f =>
          rw [hf] at ho
          simpa [hg.origin] using ho
      · exact ho
  · exact hm.ofThread (threadAt_modify_ne m ht _) (fun _ _ _ ha => ha) List.prefix_rfl

theorem onTop (hm : Shelter manners t n h o m₀ r y m) (t' : ThreadId) (g : Frame → Frame)
    [hg : Frame.Benign g] : Shelter manners t n h o m₀ r y (m.modifyTop t' g) := by
  rw [modifyTop_eq]
  refine hm.onLevel t' _ g fun ht => ?_
  have := hm.size_lt
  rw [ht]
  omega

theorem onRegister (hm : Shelter manners t n h o m₀ r y m) {u : UpvalueId} {p : Register}
    (hu : m.upvalues[u.index]? = some (.opened p)) (v : Value) :
    Shelter manners t n h o m₀ r y (m.modifyLevel p.thread p.level (·.setSlot p.slot v)) := by
  by_cases hl : p.thread = t → n ≤ p.level
  · exact hm.onLevel p.thread p.level _ hl
  · obtain ⟨rfl, hl⟩ := Classical.not_imp.mp hl
    refine hm.ofFrames (threadAt_modify_self m hm.one_lt_size _) (fun i hi f hf => ?_) ?_
      (sites_modify hm.sites _ _) (fun _ _ _ ha => ha) List.prefix_rfl
    · rw [modifyFrames, Array.getElem?_modify]
      by_cases hi : p.level = i
      · subst hi
        rw [if_pos rfl, hf]
        exact ⟨_, rfl, Frame.Kept.refl.setSlot ⟨u, hu⟩ v⟩
      · exact ⟨f, by rw [if_neg hi, hf], .refl⟩
    · have hne : p.level ≠ n := by omega
      rw [modifyFrames, Array.getElem?_modify, if_neg hne]
      exact hm.origin

instance homed : Condition.Homed t (Shelter manners t n h o m₀) where
  many hm := hm.one_lt_size
  parked hm := hm.parked
  moved {r y m r' y' m'} hy hy' ht ha hf hm := by
    have hm' := hm.ofThread ht (fun i _ s => ha i s) hf
    exact ⟨hm'.intact, hm'.origin, hm'.positive, hm'.sites, hm'.parked, hm'.status, fun hh => by
      have hc := hm'.calm hh
      exact ⟨hc.1, fun hy'' => absurd hy''.2 (hy' hy''.1), .inl (hc.3.resolve_right fun hy'' =>
        hy hy''.1 hy''.2)⟩⟩
  phase t' _ hm := hm.onThread t' _ fun _ => ⟨rfl, rfl, rfl, rfl, rfl⟩

theorem closing (hm : Shelter manners t n h o m₀ r y m) (u : UpvalueId) (v : Value) :
    Shelter manners t n h o m₀ r y
      { m with upvalues := m.upvalues.setIfInBounds u.index (.closed v) } := by
  refine hm.ofThread rfl (fun i _ s ⟨u', hu'⟩ => ⟨u', ?_⟩) List.prefix_rfl
  simp only [Array.getElem?_setIfInBounds] at hu'
  split at hu'
  · split at hu' <;> cases hu'
  · exact hu'

theorem pushUpvalue (hm : Shelter manners t n h o m₀ r y m) (u : Upvalue)
    (hu : ∀ i < n, ∀ s, u ≠ .opened ⟨t, i, s⟩) :
    Shelter manners t n h o m₀ r y { m with upvalues := m.upvalues.push u } := by
  refine hm.ofThread rfl (fun i hi s ⟨u', hu'⟩ => ⟨u', ?_⟩) List.prefix_rfl
  simp only [Array.getElem?_push] at hu'
  split at hu'
  · exact absurd (Option.some.inj hu') (hu i hi s)
  · exact hu'

instance stable : Condition.Stable (Shelter manners t n h o m₀) where
  heap m m' ht hu hf _ hm := by
    refine hm.ofThread (by rw [threadAt, ht, threadAt]) (fun i _ s ⟨u, hs⟩ => ⟨u, ?_⟩) hf
    rwa [hu] at hs
  closed v hm := hm.pushUpvalue _ fun _ _ _ => by simp
  assigned u v _ _ hm := hm.closing u v
  closing start hm := Condition.kept_closing (fun u v hm => hm.closing u v)
    (fun captured hm => hm.onTop _ _) start hm
  capturing {r y m} slot _ _ hm := by
    refine onTop (hm.pushUpvalue _ fun i hi s he => ?_) r _
    have hs := hm.size_lt
    simp only [Upvalue.opened.injEq, Register.mk.injEq] at he
    obtain ⟨rfl, he, -⟩ := he
    omega
  top t' g _ hm := hm.onTop t' g
  frame m m' g _ hm hm' := hm'.onLevel _ _ g fun ht => by
    subst ht
    have := hm.size_lt
    omega
  register u p v hu hm := hm.onRegister hu v
  thread hm := hm.ofThread (threadAt_push _ hm.one_lt_size _) (fun _ _ _ ha => ha) List.prefix_rfl
  transfer vs hm := hm.onThread _ _ fun _ => ⟨rfl, rfl, rfl, rfl, rfl⟩
  inThread t' _ hx := ⟨fun _ hm => Condition.Homed.inThread t t' hm.2 fun m' hr hm' =>
    (hx.ends m' ⟨⟨rfl, hm'⟩, fun _ => Condition.Homed.away_of_ne t hr⟩).imp fun _ _ h => h.1⟩

theorem guarding (hm : Shelter manners t n h o m₀ r y m) (t' : ThreadId) (g : Option Guard) :
    Shelter manners t n h o m₀ r y (m.modifyTop t' fun f => { f with guard := g }) := hm.onTop t' _

end Shelter
end LuaMachine
