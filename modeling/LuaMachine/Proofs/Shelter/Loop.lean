import LuaMachine.Proofs.Loop
import LuaMachine.Proofs.Shelter.Natives

namespace LuaMachine

open Machine Exec Relation

/-- The loop is above the lowest `n` frames, or it has just come down to them. -/
def Point.Above (manners : Manners) (t : ThreadId) (n h : Nat) (o : Origin) (m₀ : Machine) : Point → Prop
  | .running m => m.running = t ∧ Shelter manners t n h o m₀ t false m
  | .delivering site m => m.running = t ∧
      (site ≠ .host ∧ Shelter manners t n h o m₀ t false m ∨
        site = o.site ∧ ∃ vs, Returned manners t n h vs o.wanted m₀ m)
  | .failing e m => m.running = t ∧ Shelter manners t n h o m₀ t e.isYield m

def Point.Atop (manners : Manners) (t : ThreadId) (n : Nat) (c : Counts) (o : Origin) (m₀ : Machine) :
    Point → Prop
  | .running m => m.running = t ∧ Aloft manners t n c o m₀ t false m
  | .delivering site m => m.running = t ∧
      (site ≠ .host ∧ Aloft manners t n c o m₀ t false m ∨
        site = o.site ∧ ∃ vs, Finished manners t n c vs o.wanted m₀ m)
  | .failing e m => m.running = t ∧ Poised manners t n c o m₀ t e.isYield m

def Outcome.Atop (manners : Manners) (t : ThreadId) (n : Nat) (c : Counts) (o : Origin) (m₀ : Machine)
    (x : Outcome (Option CallSite)) : Prop :=
  ∀ p, x.point? = some p → p.Atop manners t n c o m₀

/-- The point is above the lowest `n` frames, and so is what catches its error. -/
def Point.Higher (n stop : Nat) : Point → Prop
  | .running m => n < m.frameCount
  | .delivering _ m => n < m.frameCount
  | .failing _ m => ∀ level, m.guardedLevel? stop = some level → n ≤ level

theorem Machine.guardedLevel?_bounds {m : Machine} {stop level : Nat}
    (h : m.guardedLevel? stop = some level) :
    stop ≤ level ∧ level < m.frameCount ∧ m.isGuarded level = true := by
  have hm := List.mem_of_find?_eq_some h
  rw [List.mem_reverse, List.mem_range'_1] at hm
  exact ⟨hm.1, by omega, List.find?_some h⟩

theorem Returned.frameCount {manners : Manners} {t : ThreadId} {n h : Nat} {vs : List Value}
    {wanted : Int} {m₀ m : Machine} (hm : Returned manners t n h vs wanted m₀ m)
    (ht : m.running = t) : m.frameCount = n := by
  obtain ⟨m', rfl, hx⟩ := hm
  change m'.running = t at ht
  subst ht
  exact (m'.size_modifyTop ..).trans hx.ready.size

theorem Handed.frameCount {manners : Manners} {t : ThreadId} {n : Nat} {c : Counts} {vs : List Value}
    {wanted : Int} {m₀ m : Machine} (hm : Handed manners t n c vs wanted m₀ m)
    (ht : m.running = t) : m.frameCount = n := hm.standing.frameCount ht

namespace Aloft

variable {manners : Manners} {t : ThreadId} {n : Nat} {c : Counts} {o : Origin} {m₀ m m' : Machine}
  {r : ThreadId} {y : Bool} {re : Reentry} {stop : Nat}

section Atop

variable {α : Type}

theorem atop_bind {x : Exec α} {f : α → Exec (Option CallSite)}
    (hx : Keeps (Poised manners t n c o m₀) x) (ht : m.running = t)
    (hm : Aloft manners t n c o m₀ t false m)
    (hf : ∀ a m', m'.running = t → Aloft manners t n c o m₀ t false m' →
      (f a m').Atop manners t n c o m₀) : ((x >>= f) m).Atop manners t n c o m₀ := by
  have hx := hx.endsIn ht hm.poisedQuiet
  rw [run_bind]
  cases he : x m with
  | done a m' =>
    rw [he] at hx
    exact hf a m' hx.1 hx.2.kept
  | raised e m' =>
    rw [he] at hx
    rintro p ⟨⟩
    exact hx
  | exhausted => nofun

theorem atop_running {x : Exec Unit} (hx : Keeps (Poised manners t n c o m₀) x)
    (ht : m.running = t) (hm : Aloft manners t n c o m₀ t false m) :
    ((do x; return none : Exec (Option CallSite)) m).Atop manners t n c o m₀ := by
  refine atop_bind hx ht hm fun _ m' ht' hm' => ?_
  rintro p ⟨⟩
  exact ⟨ht', hm'⟩

theorem atop_leave (first : Nat) (ht : m.running = t) (hm : Aloft manners t n c o m₀ t false m) :
    ((some <$> leave first) m).Atop manners t n c o m₀ := by
  obtain ⟨us, hu, he⟩ := run_leave first m
  have hs := hm.kept.lt_frameCount ht
  have hend := he
  rw [← bind_pure_comp, run_bind, he]
  rintro p ⟨⟩
  refine ⟨ht, ?_⟩
  subst ht
  obtain ⟨k, hk⟩ : ∃ k, m.frameCount = k + 1 := ⟨m.frameCount - 1, by omega⟩
  have hf : (m.threadAt m.running).frames[k]? = some m.frame := getElem?_top hk
  rw [hk, Nat.add_sub_cancel]
  by_cases hl : n < k
  · exact .inl ⟨hm.kept.sites k hl _ hf, Condition.Steady.top _ _ (hm.cut hl hu)⟩
  · obtain rfl : k = n := by omega
    have ho := hm.kept.origin
    rw [hf] at ho
    have ho : m.frame.origin = o := Option.some.inj ho
    rw [← ho]
    rw [hk, Nat.add_sub_cancel] at hend
    exact .inr ⟨rfl, _, ⟨_, rfl, (hm.landed hu).congr (by simp)⟩, first, m, _, _, rfl, hk, rfl, hend,
      rfl⟩

theorem atop_returnFrom (a b : Nat) (ht : m.running = t)
    (hm : Aloft manners t n c o m₀ t false m) :
    ((some <$> returnFrom a b) m).Atop manners t n c o m₀ := by
  unfold returnFrom
  cases b with
  | zero =>
    rw [map_bind]
    refine atop_bind inferInstance ht hm fun _ m₁ h₁ hm₁ => ?_
    rw [map_bind]
    exact atop_bind inferInstance h₁ hm₁ fun _ m₂ h₂ hm₂ => atop_leave _ h₂ hm₂
  | succ b =>
    dsimp only
    rw [map_bind]
    refine atop_bind inferInstance ht hm fun _ m₁ h₁ hm₁ => ?_
    rw [map_bind]
    exact atop_bind inferInstance h₁ hm₁ fun _ m₂ h₂ hm₂ => atop_leave _ h₂ hm₂

theorem atop_completeGuarded (ht : m.running = t) (hm : Aloft manners t n c o m₀ t false m) :
    ((some <$> completeGuarded) m).Atop manners t n c o m₀ := by
  have := (Condition.Guards.keeps_takeGuard : Keeps (Poised manners t n c o m₀) takeGuard)
  unfold completeGuarded
  rw [map_bind]
  refine atop_bind inferInstance ht hm fun _ m₁ h₁ hm₁ => ?_
  rw [map_bind]
  refine atop_bind inferInstance h₁ hm₁ fun _ m₂ h₂ hm₂ => ?_
  rw [map_bind]
  exact atop_bind inferInstance h₂ hm₂ fun _ m₃ h₃ hm₃ => atop_leave _ h₃ hm₃

theorem atop_recover (hre : re.Shelters manners t) {level : Nat} {e : Error} (hl : n ≤ level)
    (ht : m.running = t) (hm : Aloft manners t n c o m₀ t false m) :
    ((some <$> recover re level e) m).Atop manners t n c o m₀ := by
  have := (Condition.Guards.keeps_takeGuard : Keeps (Poised manners t n c o m₀) takeGuard)
  have hc := fun v => (Poised.covers.returning.keeps_caughtValue hre v e :
    Keeps (Poised manners t n c o m₀) _)
  have hk : n < max (level + 1) 1 := by omega
  obtain ⟨us, hu, he⟩ := run_truncateFrames (max (level + 1) 1) m
  subst ht
  unfold recover unwindTo
  rw [map_bind, run_bind, he, Outcome.andThen_done, map_bind]
  refine atop_bind inferInstance rfl (hm.cut hk hu) fun v m₁ h₁ hm₁ => ?_
  rw [map_bind]
  refine atop_bind inferInstance h₁ hm₁ fun _ m₂ h₂ hm₂ => ?_
  rw [map_bind]
  refine atop_bind (hc v) h₂ hm₂ fun _ m₃ h₃ hm₃ => ?_
  rw [map_bind]
  refine atop_bind inferInstance h₃ hm₃ fun _ m₄ h₄ hm₄ => ?_
  rw [map_bind]
  exact atop_bind inferInstance h₄ hm₄ fun _ m₅ h₅ hm₅ => atop_leave 0 h₅ hm₅

theorem atop_execute (hre : re.Shelters manners t) (ht : m.running = t)
    (hm : Aloft manners t n c o m₀ t false m) : (execute re m).Atop manners t n c o m₀ := by
  have := (Poised.covers.calls hre : re.Calls (Poised manners t n c o m₀))
  have := (Poised.covers.starts hre : re.Starts (Poised manners t n c o m₀))
  refine atop_bind inferInstance ht hm fun i m₁ h₁ hm₁ => ?_
  cases hi : i.opcode? with
  | none =>
    rw [carryOut, hi]
    rintro p ⟨⟩
    exact ⟨h₁, hm₁.poisedQuiet⟩
  | some op =>
    by_cases hr : op = .return
    · subst hr
      rw [carryOut_return re hi]
      exact atop_returnFrom _ _ h₁ hm₁
    · rw [carryOut_plain re hi hr]
      exact atop_running (keeps_plainInstruction re op i) h₁ hm₁

theorem atop_accept (hre : re.Shelters manners t) (site : CallSite)
    (ht : m.running = t) (hm : Aloft manners t n c o m₀ t false m) :
    (accept re site m).Atop manners t n c o m₀ := by
  have := (Poised.covers.calls hre : re.Calls (Poised manners t n c o m₀))
  have := (Poised.covers.starts hre : re.Starts (Poised manners t n c o m₀))
  cases site with
  | host =>
    rintro p ⟨⟩
    exact ⟨ht, hm⟩
  | call a c => exact atop_running (keeps_storeResults (a + 1) c) ht hm
  | iterator a c => exact atop_running (keeps_storeResults (a + 4) (c + 1)) ht hm
  | metamethod => exact atop_running (keeps_finishInstruction re) ht hm
  | guarded => exact atop_completeGuarded ht hm

end Atop

/-- The walk stays above the sheltered frames until the one above them has ended. -/
theorem move_atop (hre : re.Shelters manners t) {p q : Point} (hp : p.Atop manners t n c o m₀)
    (hc : p.Higher n stop) (hq : Point.Moves re stop p q) : q.Atop manners t n c o m₀ := by
  cases p with
  | running m => exact atop_execute hre hp.1 hp.2 q hq
  | delivering site m =>
    have hm : Aloft manners t n c o m₀ t false m := by
      obtain ⟨-, hm⟩ | ⟨-, vs, hx⟩ := hp.2
      · exact hm
      · exact absurd (hx.handed.frameCount hp.1 ▸ hc : n < n) (Nat.lt_irrefl n)
    change (if m.frameCount ≤ stop ∨ site = .host then none else (accept re site m).point?) =
      some q at hq
    split at hq
    · cases hq
    · exact atop_accept hre site hp.1 hm q hq
  | failing e m =>
    change (if e = .yield then none else (m.guardedLevel? stop).bind fun level =>
      ((some <$> recover re level e) m).point?) = some q at hq
    split at hq
    · cases hq
    · next he =>
      obtain ⟨level, hl, hq⟩ := Option.bind_eq_some_iff.mp hq
      exact atop_recover hre (hc level hl) hp.1 (Error.isYield_of_ne he ▸ hp.2.kept) q hq

theorem walk_atop (hre : re.Shelters manners t) (hs : n ≤ stop) {p q : Point}
    (hp : p.Atop manners t n c o m₀) (hq : ReflTransGen (Point.Moves re stop) p q) :
    q.Atop manners t n c o m₀ := by
  induction hq with
  | refl => exact hp
  | @tail p q _ hq ih =>
    refine move_atop hre ih ?_ hq
    cases p with
    | running m => exact ih.2.kept.lt_frameCount ih.1
    | delivering site m =>
      have hr : m.frameCount ≤ stop ∨ site = .host → False := fun hr => by
        have he : (Point.delivering site m).next? re stop = none := if_pos hr
        rw [Point.Moves, he] at hq
        cases hq
      exact Nat.lt_of_le_of_lt hs (Nat.not_le.mp fun hc => hr (.inl hc))
    | failing e m => exact fun level hl => Nat.le_trans hs (guardedLevel?_bounds hl).1

theorem called_loop (hre : re.Shelters manners t) (fuel : Nat) {site : Option CallSite} (h0 : 0 < n)
    (hm : (Point.start m site).Atop manners t n c o m₀) :
    (dispatch re fuel n site m).Called manners t n c o.site o.wanted m₀ := by
  by_cases hx : dispatch re fuel n site m = .exhausted
  · rw [hx]
    trivial
  · obtain ⟨q, hq, hr⟩ := dispatch_walk h0 hx
    have ha := walk_atop hre (Nat.le_refl n) hm hq
    cases q with
    | running m' => cases hr
    | delivering site m' =>
      change (if m'.frameCount ≤ n ∨ site = .host then some (Outcome.done () m') else none) =
        some _ at hr
      split at hr
      · next hc =>
        rw [← Option.some.inj hr]
        obtain ⟨hsite, hm'⟩ | ⟨-, hx⟩ := ha.2
        · exact absurd (hm'.kept.lt_frameCount ha.1) (Nat.not_lt.mpr (hc.resolve_right hsite))
        · exact ⟨ha.1, hx⟩
      · cases hr
    | failing e m' =>
      change (if e = .yield ∨ m'.guardedLevel? n = none then some (Outcome.raised e m') else none) =
        some _ at hr
      split at hr
      · rw [← Option.some.inj hr]
        exact ⟨ha.1, .inr ⟨o, rfl, rfl, ha.2⟩⟩
      · cases hr

theorem called_dispatch (hre : re.Shelters manners t) (fuel : Nat) (ht : m.running = t)
    (hm : Aloft manners t n c o m₀ t false m) :
    (dispatch re fuel n none m).Called manners t n c o.site o.wanted m₀ :=
  called_loop hre fuel hm.kept.positive ⟨ht, hm⟩

end Aloft

namespace Point

variable {manners : Manners} {t : ThreadId} {n h : Nat} {c : Counts} {o : Origin} {m₀ : Machine}
  {re : Reentry} {stop : Nat} {p q : Point}

theorem Atop.above (hp : p.Atop manners t n c o m₀) (hn : 1 < n) (hh : manners.honest → c.hostCalls = h) :
    p.Above manners t n h o m₀ := by
  cases p with
  | running m => exact ⟨hp.1, hp.2.shelter hh⟩
  | delivering site m =>
    obtain ⟨hr, ⟨hs, hm⟩ | ⟨hs, vs, hm⟩⟩ := hp
    · exact ⟨hr, .inl ⟨hs, hm.shelter hh⟩⟩
    · exact ⟨hr, .inr ⟨hs, vs, hm.handed.returned hn hh⟩⟩
  | failing e m => exact ⟨hp.1, hp.2.kept.shelter hh⟩

theorem Above.atop (hp : p.Above manners t n h o m₀) (hc : p.Higher n stop)
    (hy : ∀ m, p ≠ .failing .yield m) :
    ∃ c, (manners.honest → c.hostCalls = h) ∧ p.Atop manners t n c o m₀ := by
  cases p with
  | running m => exact ⟨_, fun hh => (hp.2.calm hh).1, hp.1, hp.2.aloft⟩
  | delivering site m =>
    obtain ⟨hr, ⟨hs, hm⟩ | ⟨-, vs, hx⟩⟩ := hp
    · exact ⟨_, fun hh => (hm.calm hh).1, hr, .inl ⟨hs, hm.aloft⟩⟩
    · exact absurd (hx.frameCount hr ▸ hc : n < n) (Nat.lt_irrefl n)
  | failing e m =>
    have he : e.isYield = false := Error.isYield_of_ne fun he => hy m (he ▸ rfl)
    refine ⟨_, fun hh => (hp.2.calm hh).1, hp.1, hp.2.aloft.poised fun _ hy => ?_⟩
    rw [he] at hy
    cases hy

end Point

theorem Shelter.move_above {manners : Manners} {t : ThreadId} {n h : Nat} {o : Origin} {m₀ : Machine}
    {re : Reentry} {stop : Nat} (hre : re.Shelters manners t) (hn : 1 < n) {p q : Point}
    (hp : p.Above manners t n h o m₀) (hc : p.Higher n stop) (hq : Point.Moves re stop p q) :
    q.Above manners t n h o m₀ := by
  have hy : ∀ m, p ≠ .failing .yield m := by
    rintro m rfl
    cases hq
  obtain ⟨c, hh, hx⟩ := hp.atop hc hy
  exact (Aloft.move_atop hre hx hc hq).above hn hh

namespace Sole

variable {manners : Manners} {t : ThreadId} {n : Nat} {c : Counts} {o : Origin} {m₀ m m' : Machine}
  {re : Reentry}

theorem guarded_of_quiet {α : Type} {x : Exec α} {f : α → Exec Nat} {P : Prop}
    (hx : Keeps (Condition.quiet (Sole manners t n c o m₀)) x) (ht : m.running = t)
    (hm : Sole manners t n c o m₀ t false m)
    (hf : ∀ a m₁, m₁.running = t → Sole manners t n c o m₀ t false m₁ →
      f a m₁ = .raised .yield m' → P)
    (hy : (x >>= f) m = .raised .yield m') : P := by
  have he := hx.endsIn ht ⟨rfl, hm⟩
  rcases Outcome.andThen_eq_raised hy with hr | ⟨a, m₁, hr, hy'⟩
  · rw [hr] at he
    cases he.2.1
  · rw [hr] at he
    exact hf a m₁ he.1 he.2.2 hy'

theorem guarded_of_protects (hre : re.Shelters manners t) (host : Host) {f : Native}
    (hf : f.protects = true) (ht : m.running = t) (hm : Sole manners t n c o m₀ t false m)
    (hy : host.native re f m = .raised .yield m') :
    m'.isGuarded n = true ∧ (manners.honest → (m'.threadAt t).Waits) := by
  cases f with
  | script _ => cases hf
  | builtin f =>
    cases f with
    | pcall =>
      have hy : (checkAny 1 >>= fun _ => guardedCall re none) m = .raised .yield m' := hy
      exact guarded_of_quiet (keeps_checkAny 1) ht hm
        (fun _ m₁ h₁ hm₁ => guarded_of_yield hre hm₁ h₁) hy
    | xpcall =>
      have hy : (checkKind 2 .function >>= fun _ => valueAt 2 >>= fun handler =>
        remove 2 >>= fun _ => guardedCall re (some handler)) m = .raised .yield m' := hy
      refine guarded_of_quiet (keeps_checkKind 2 .function) ht hm (fun _ m₁ h₁ hm₁ => ?_) hy
      refine guarded_of_quiet (keeps_valueAt 2) h₁ hm₁ fun handler m₂ h₂ hm₂ => ?_
      refine guarded_of_quiet (keeps_remove 2) h₂ hm₂ fun _ m₃ h₃ hm₃ => ?_
      exact guarded_of_yield hre hm₃ h₃
    | _ => cases hf

theorem isGuarded {y : Bool} (hm : Sole manners t n c o m₀ t y m) (ht : m.running = t) :
    m.isGuarded n = false := by
  have hg := hm.kept.unguarded
  rw [Machine.isGuarded, Machine.thread, ht]
  cases hf : (m.threadAt t).frames[n]? with
  | none => rfl
  | some f =>
    rw [hf] at hg
    exact congrArg Option.isSome (Option.some.inj hg)

end Sole

theorem Host.keeps_mannered {manners : Manners} {t : ThreadId} {c : Counts} {K : Condition} [K.Homed t]
    [K.Stable] [K.Yields] {re : Reentry} [re.Calls K] (host : Host) (ht : manners.tactful → host.Tactful)
    (hre : re.Shelters manners t) (hK : K.Returning manners t c)
    (hl : ∀ e ∈ host.failures, Lax K e) (f : Native) (hs : f.protects = true → re.Starts K) :
    Keeps K (host.native re f) := by
  by_cases hn : manners.tactful
  · have := hre.distant.resumes (K := K)
    refine host.keeps_scripts re (fun op ho => hre.distant.keeps_tactful none op (ht hn op ho) fun e he =>
      hl e ?_) f hs
    rw [host.failures_eq]
    exact List.mem_flatMap.mpr ⟨op, ho, he⟩
  · have : re.Safe K := { resume := hK.keeps_resume hre hn }
    exact host.keeps_native re hl f hs

section Host

variable {manners : Manners} (host : Host) (hh : manners.honest → host.Honest) (t : ThreadId) (n : Nat)
  (c : Counts) (o : Origin) (m₀ : Machine)
include hh

theorem Host.lax_aloft : ∀ e ∈ host.failures, Lax (Aloft manners t n c o m₀) e := by
  intro e he
  cases e with
  | yield => exact ⟨fun hm => ⟨{ hm.kept with calm := fun hy => absurd he (hh hy) }, hm.mark⟩⟩
  | _ => exact ⟨id⟩

theorem Host.keeps_sole {re : Reentry} (ht : manners.tactful → host.Tactful)
    (hre : re.Shelters manners t) {f : Native} (hf : f.protects = false) (ho : o.Native m₀) :
    Keeps (Sole manners t n c o m₀) (host.native re f) := by
  have := (Sole.calls hre ho : re.Calls (Sole manners t n c o m₀))
  have hl : ∀ e ∈ host.failures, Lax (Sole manners t n c o m₀) e := fun e he =>
    ⟨fun hm =>
      have hx := (host.lax_aloft hh t n c o m₀ e he).raised hm.aloft
      ⟨{ hm.kept with shelter := hx.kept }, hx.mark⟩⟩
  exact host.keeps_mannered ht hre Sole.returning hl f
    fun hc => absurd hc (by rw [hf]; exact Bool.false_ne_true)

end Host

/-- Whatever the machine does in a thread keeps it sheltered. -/
theorem Host.shelters_mannered {manners : Manners} (host : Host) (hh : manners.honest → host.Honest)
    (htact : manners.tactful → host.Tactful) (t : ThreadId) (fuel : Nat) :
    (host.reentry fuel).Shelters manners t := by
  -- native functions and the loop get into each other with less fuel, so this is one induction for both
  induction fuel with
  | zero => exact ⟨fun _ _ _ _ _ => keeps_exhausted, host.distant t 0, nofun, fun _ _ => trivial⟩
  | succ fuel ih =>
    refine ⟨fun f n c o m₀ => ?_, host.distant t (fuel + 1),
      fun {f n c o m₀ m m'} hho ht hm ho hy => ?_, fun {n c o m₀ m} ht hm => ?_⟩
    · have := (Aloft.covers.calls ih : (host.reentry fuel).Calls (Aloft manners t n c o m₀))
      exact host.keeps_mannered htact ih Aloft.covers.returning (host.lax_aloft hh t n c o m₀) f
        fun _ => Aloft.covers.starts ih
    · cases hf : f.protects with
      | true =>
        have hg := Sole.guarded_of_protects ih host hf ht hm hy
        exact ⟨fun _ => hg.2 hho, fun hc => by rw [hg.1] at hc; cases hc⟩
      | false =>
        have hk := (host.keeps_sole hh t n c o m₀ htact ih hf ho).endsIn ht hm
        rw [show host.native (host.reentry fuel) f m = .raised .yield m' from hy] at hk
        refine ⟨fun hc => ?_, fun _ => hk.2.kept.pending hho⟩
        rw [hk.2.isGuarded hk.1] at hc
        cases hc
    · exact Aloft.called_dispatch ih fuel ht hm

theorem Host.shelters {honest : Prop} (host : Host) (hh : honest → host.Honest) (t : ThreadId)
    (fuel : Nat) : (host.reentry fuel).Shelters honest t := host.shelters_mannered hh False.elim t fuel

end LuaMachine
