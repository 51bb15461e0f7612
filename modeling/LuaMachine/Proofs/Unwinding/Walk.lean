import LuaMachine.Proofs.Guarded.Failure

namespace LuaMachine

open Machine Exec Relation

variable {honest : Prop} {t : ThreadId} {n k stop : Nat} {c : Counts} {o : Origin} {m₀ m : Machine}
  {re : Reentry} {p q : Point} {e : Error}

theorem Landed.truncated (hm : Landed honest t k c m₀ False m) (h0 : 0 < n) (hn : n ≤ k)
    {us : Array Upvalue} (hu : Upvalue.Closes m.upvalues us) :
    Landed honest t n c m False (m.cut t n us) := by
  have hc := hm.calm
  have hth : (m.cut t n us).threadAt t = _ := threadAt_cut_there hm.there
  refine ⟨intact_cut hm.there hu (Nat.le_refl n), ?_, h0, ?_, ?_, ?_, ?_, ?_⟩
  · exact Nat.lt_of_lt_of_eq hm.there (Array.size_modify ..).symm
  · rw [hth, size_take, hm.size, Nat.min_eq_left hn]
  · rw [hth, hm.parked]
  · rw [hth]
    exact hm.status
  · rw [hth]
    exact hm.counts
  · rw [hth]
    exact fun hh => ⟨(hc hh).1, (hc hh).2, (hc hh).3⟩

theorem Handed.intact {vs : List Value} {wanted : Int} (hm : Handed honest t k c vs wanted m₀ m)
    (hn : n < k) : Intact t n m₀ m := by
  obtain ⟨m', rfl, hx⟩ := hm
  exact (hx.intact.mono (Nat.le_of_lt hn)).trans (intact_modifyTop (by rw [hx.size]; exact hn) _)

namespace Point

def machine : Point → Machine
  | running m | delivering _ m | failing _ m => m

/-- The loop is above the lowest `stop` frames of the running thread `t`, or it has come down to
them, and so many calls are in progress in the thread. -/
def Stays (honest : Prop) (t : ThreadId) (stop : Nat) (c : Counts) : Point → Prop
  | running m => m.running = t ∧ stop < m.frameCount ∧ Landed honest t m.frameCount c m False m
  | delivering _ m => m.running = t ∧ stop ≤ m.frameCount ∧ Landed honest t m.frameCount c m False m
  | failing e m => m.running = t ∧ stop < m.frameCount ∧
      Landed honest t m.frameCount c m (e.isYield = true) m

theorem Stays.running (hp : p.Stays honest t stop c) : p.machine.running = t := by
  cases p with
  | running m | delivering site m | failing e m => exact hp.1

theorem Stays.standing (hp : p.Stays honest t stop c) :
    ∃ y, Landed honest t p.machine.frameCount c p.machine y p.machine := by
  cases p with
  | running m | delivering site m | failing e m => exact ⟨_, hp.2.2⟩

theorem Atop.stays (hq : q.Atop honest t k c o m₀) (hs : stop ≤ k) : q.Stays honest t stop c := by
  cases q with
  | running m => exact ⟨hq.1, Nat.lt_of_le_of_lt hs (hq.2.kept.lt_frameCount hq.1), hq.2.ready hq.1⟩
  | delivering site m =>
    obtain ⟨ht, ⟨-, hm⟩ | ⟨-, vs, hm⟩⟩ := hq
    · exact ⟨ht, Nat.le_of_lt (Nat.lt_of_le_of_lt hs (hm.kept.lt_frameCount ht)), hm.ready ht⟩
    · have hk := hm.handed.frameCount ht
      exact ⟨ht, hk ▸ hs, hk.symm ▸ hm.handed.standing⟩
  | failing e m =>
    exact ⟨hq.1, Nat.lt_of_le_of_lt hs (hq.2.kept.kept.lt_frameCount hq.1), hq.2.kept.standing hq.1⟩

theorem Atop.intact (hq : q.Atop honest t k c o m₀) (hn : n ≤ k) (hc : q.Higher n stop) :
    Intact t n m₀ q.machine := by
  cases q with
  | running m => exact hq.2.kept.intact.mono hn
  | delivering site m =>
    obtain ⟨ht, ⟨-, hm⟩ | ⟨-, vs, hm⟩⟩ := hq
    · exact hm.kept.intact.mono hn
    · exact hm.handed.intact (hm.handed.frameCount ht ▸ hc)
  | failing e m => exact hq.2.kept.kept.intact.mono hn

end Point

theorem Exec.recover_cut (re : Reentry) (e : Error) (hm : m.running.index < m.threads.size)
    {us : Array Upvalue} (he : truncateFrames (k + 1) m = .done () (m.cut m.running (k + 1) us)) :
    recover re k e (m.cut m.running (k + 1) us) = recover re k e m := by
  have hc : (m.cut m.running (k + 1) us).frameCount ≤ k + 1 := by
    change ((m.cut m.running (k + 1) us).threadAt m.running).frames.size ≤ k + 1
    rw [threadAt_cut_there hm, size_take]
    exact Nat.min_le_left ..
  rw [recover, unwindTo, Nat.max_eq_left (Nat.le_add_left ..), run_bind, run_bind,
    truncateFrames_of_le hc, he]

theorem Point.Stays.atop (hre : re.Shelters honest t) (hs : 0 < stop)
    (hp : p.Stays honest t stop c) (hq : Moves re stop p q) :
    ∃ k o, stop ≤ k ∧ (∀ n, p.Higher n stop → n ≤ k) ∧ q.Atop honest t k c o p.machine := by
  have top : ∀ {m : Machine}, m.running = t → Landed honest t m.frameCount c m False m →
      stop < m.frameCount → ∃ k o, m.frameCount = k + 1 ∧ stop ≤ k ∧ Aloft honest t k c o m t false m := by
    intro m ht hm hc
    obtain ⟨k, hk⟩ : ∃ k, m.frameCount = k + 1 := ⟨m.frameCount - 1, by omega⟩
    subst ht
    rw [hk] at hm
    exact ⟨k, _, hk, by omega, hm.aloft (by omega) (getElem?_top hm.size)⟩
  cases p with
  | running m =>
    obtain ⟨ht, hc, hm⟩ := hp
    obtain ⟨k, o, hk, hsk, ha⟩ := top ht hm hc
    exact ⟨k, o, hsk, fun n hn => by change n < m.frameCount at hn; omega,
      ha.atop_execute hre ht q hq⟩
  | delivering site m =>
    obtain ⟨ht, -, hm⟩ := hp
    change (if m.frameCount ≤ stop ∨ site = .host then none else (accept re site m).point?) =
      some q at hq
    split at hq
    · cases hq
    · next hc =>
      obtain ⟨k, o, hk, hsk, ha⟩ := top ht hm (Nat.not_le.mp fun h => hc (.inl h))
      exact ⟨k, o, hsk, fun n hn => by change n < m.frameCount at hn; omega,
        ha.atop_accept hre site ht q hq⟩
  | failing e m =>
    obtain ⟨ht, -, hm⟩ := hp
    change (if e = .yield then none else (m.guardedLevel? stop).bind fun level =>
      ((some <$> recover re level e) m).point?) = some q at hq
    split at hq
    · cases hq
    · next he =>
      obtain ⟨level, hl, hq⟩ := Option.bind_eq_some_iff.mp hq
      obtain ⟨hsl, hlc, -⟩ := guardedLevel?_bounds hl
      -- the frames above the guarded one are taken off first, and then it is a step of the frame on top
      obtain ⟨us, hu, htr⟩ := run_truncateFrames (level + 1) m
      subst ht
      have hcut := (hm.congr (q := False) (by simp [Error.isYield_of_ne he])).truncated
        (Nat.succ_pos level) hlc hu
      have hf : (m.threadAt m.running).frames[level]? = some _ := Array.getElem?_eq_getElem hlc
      have ht : (m.cut m.running (level + 1) us).running = m.running := rfl
      have ha := (hcut.aloft (by omega) hf).atop_recover (e := e) hre (Nat.le_refl level) ht
      refine ⟨level, _, hsl, fun n hn => hn level hl, ha q ?_⟩
      rw [← hq, ← bind_pure_comp, run_bind, run_bind, recover_cut re e hm.there htr]

theorem Point.Stays.move (hre : re.Shelters honest t) (hs : 0 < stop)
    (hp : p.Stays honest t stop c) (hq : Moves re stop p q) : q.Stays honest t stop c := by
  obtain ⟨k, o, hk, -, ha⟩ := hp.atop hre hs hq
  exact ha.stays hk

theorem Point.Stays.walk (hre : re.Shelters honest t) (hs : 0 < stop)
    (hp : p.Stays honest t stop c) (hw : ReflTransGen (Moves re stop) p q) :
    q.Stays honest t stop c := by
  induction hw with
  | refl => exact hp
  | tail _ hq ih => exact ih.move hre hs hq

theorem Point.walk_of_climbs (hw : ReflTransGen (Climbs re n stop) p q) :
    ReflTransGen (Moves re stop) p q := by
  induction hw with
  | refl => exact .refl
  | tail _ hm ih => exact ih.tail hm.2

/-- While a loop stays above the lowest `n` frames, these are intact. -/
theorem Point.Stays.intact (hre : re.Shelters honest t) (hs : 0 < stop)
    (hp : p.Stays honest t stop c) (hw : ReflTransGen (Climbs re n stop) p q)
    (hc : q.Higher n stop) : Intact t n p.machine q.machine := by
  induction hw using ReflTransGen.head_induction_on with
  | refl => exact .refl ..
  | @head p p' hm hw ih =>
    obtain ⟨hn, hm⟩ := hm
    have hc' : p'.Higher n stop := by
      rcases ReflTransGen.cases_head hw with rfl | ⟨_, hx, -⟩
      · exact hc
      · exact hx.1
    obtain ⟨k, o, hk, hle, ha⟩ := hp.atop hre hs hm
    exact (ha.intact (hle n hn) hc').trans (ih (ha.stays hk))

theorem Outcome.Ends.point {K : Condition} [hK : K.Deaf] {x : Outcome (Option CallSite)} {r : ThreadId}
    (hx : x.Ends K r) (hq : x.point? = some q) :
    q.machine.running = r ∧ K q.machine.running false q.machine := by
  cases x with
  | done site m =>
    cases site with
    | none | some site =>
      cases hq
      exact ⟨hx.1, hx.1.symm ▸ hx.2⟩
  | raised e m =>
    cases hq
    exact ⟨hx.1, hx.1.symm ▸ (hK.yield e.isYield).mp hx.2⟩
  | exhausted => cases hq

section Framed

variable {K : Condition} [K.Tidy] [K.Roomy] {re : Reentry} [hr : re.Instructs K]

theorem Exec.keeps_execute : Keeps K (execute re) := by
  refine keeps_fetched fun {m m₁ i} hm hf hrun hm₁ => ?_
  have hp (op : Opcode) :
      ((do plainInstruction re op i; return none : Exec (Option CallSite)) m₁).Ends K m.running :=
    ends_andThen (hr.plain op hm hf) fun _ _ hr' hm' => ⟨hr', hm'⟩
  have hx : Keeps K (some <$> returnFrom i.a i.b) := inferInstance
  unfold carryOut
  cases i.opcode? with
  | none => exact (keeps_fault _).endsIn hrun hm₁
  | some op =>
    cases op with
    | «return» => exact hx.endsIn hrun hm₁
    | _ => exact hp _

variable [K.Deaf] [re.Genuine] [∀ f, Keeps K (re.invoke f)]
  [∀ stop site, Keeps K (re.dispatch stop site)]

theorem Point.Moves.keeps (hq : Moves re stop p q) (hp : K p.machine.running false p.machine) :
    q.machine.running = p.machine.running ∧ K q.machine.running false q.machine := by
  cases p with
  | running m => exact (keeps_execute.ends m hp).point hq
  | delivering site m =>
    have hx : Keeps K (accept re site) := by
      have := hr.finish
      unfold accept
      cases site <;> infer_instance
    change (if m.frameCount ≤ stop ∨ site = .host then none
      else (accept re site m).point?) = some q at hq
    split at hq
    · cases hq
    · exact (hx.ends m hp).point hq
  | failing e m =>
    change (if e = .yield then none else (m.guardedLevel? stop).bind fun level =>
      ((some <$> recover re level e) m).point?) = some q at hq
    split at hq
    · cases hq
    · obtain ⟨level, -, hq⟩ := Option.bind_eq_some_iff.mp hq
      have hx : Keeps K (some <$> recover re level e) := inferInstance
      exact (hx.ends m hp).point hq

theorem Point.walk_keepsIn (hw : ReflTransGen (Moves re stop) p q)
    (hp : K p.machine.running false p.machine) :
    q.machine.running = p.machine.running ∧ K q.machine.running false q.machine := by
  induction hw with
  | refl => exact ⟨rfl, hp⟩
  | tail _ hq ih => exact (hq.keeps ih.2).imp_left (·.trans ih.1)

end Framed

/-- Conditions that have nothing to do with the running thread hold wherever a loop comes to. -/
theorem Point.walk_keeps {K : Condition} [K.Stable] [K.Foreign] [K.Deaf] (host : Host) {fuel : Nat}
    (hw : ReflTransGen (Moves (host.reentry fuel) stop) p q)
    (hp : K p.machine.running false p.machine) : K q.machine.running false q.machine := by
  obtain ⟨hi, hd⟩ := host.keeps_foreign (K := K) fuel
  have hi : ∀ f, Keeps K ((host.reentry fuel).invoke f) := hi
  have hd : ∀ stop site, Keeps K ((host.reentry fuel).dispatch stop site) := hd
  have := Reentry.calls_framed (host.reentry fuel) hi hd
  have := Reentry.starts_framed (host.reentry fuel) hi hd
  exact (walk_keepsIn hw hp).2

end LuaMachine
