import LuaMachine.Proofs.Shelter.Calls

namespace LuaMachine

open Machine Exec

structure Condition.Returning (manners : Manners) (t : ThreadId) (c : Counts) (K : Condition) : Prop where
  ready : ∀ {m}, m.running = t → K t false m → Landed manners t m.frameCount c m False m
  landed : ∀ {m m'}, m.running = t → K t false m → Landed manners t m.frameCount c m False m' →
    K t false m'
  careless : ∀ {y m}, (manners.honest → y = false) → K t false m → K t y m

theorem frameCount_taken (m : Machine) (nargs : Nat) : (m.taken nargs).frameCount = m.frameCount :=
  ((m.modifyTop m.running _).size_modifyTop m.running m.running _).trans (m.size_modifyTop ..)

/-- A call by the host is over, and the condition holds; if it has failed, then so it did in a
machine with the same frames. -/
def Outcome.Undone (manners : Manners) (t : ThreadId) (n : Nat) (c : Counts) (K : Condition) :
    Outcome Unit → Prop
  | .done _ m => m.running = t ∧ K t false m
  | .raised e m => m.running = t ∧ (manners.honest → e.isYield = false) ∧
    ∃ m₀, m₀.running = t ∧ m₀.frameCount = n ∧ K t false m₀ ∧ Landed manners t n c m₀ False m
  | .exhausted => True

namespace Condition.Returning

variable {manners : Manners} {t : ThreadId} {c : Counts} {K : Condition} [hs : K.Stable]
  {re : Reentry} {m : Machine} (hK : K.Returning manners t c) (hre : re.Shelters manners t)

include hK hre

theorem undone_call (nargs : Nat) (wanted : Int) (ht : m.running = t) (hm : K t false m) :
    (call re nargs wanted m).Undone manners t m.frameCount c K := by
  have hr := hK.ready ht hm
  by_cases hl : m.thread.nesting < m.limits.nesting
  · have hc := hostCalled_call hre nargs wanted hr ht hl
    have hm' : K t false (m.taken nargs) := hs.top _ _ (hs.top _ _ hm)
    have hf := frameCount_taken m nargs
    have ht' : (m.taken nargs).running = t := ht
    cases he : call re nargs wanted m with
    | done a m₁ =>
      rw [he, ← hf] at hc
      obtain ⟨hr₁, vs, ⟨m₂, rfl, hx⟩, -⟩ := hc
      exact ⟨hr₁, hs.top _ _ (hK.landed ht' hm' hx)⟩
    | raised e m₁ =>
      rw [he] at hc
      exact ⟨hc.1, hc.2.1, m.taken nargs, ht', hf, hm', hc.2.2⟩
    | exhausted => trivial
  · obtain ⟨m₁, he, hr₁, -, hx⟩ := call_limited re nargs wanted hr ht (Nat.not_lt.mp hl)
    rw [he]
    exact ⟨hr₁, fun _ => rfl, m, ht, rfl, hm, hx⟩

theorem ends_call (nargs : Nat) (wanted : Int) (ht : m.running = t) (hm : K t false m) :
    (call re nargs wanted m).Ends (fun r y m => K r y m ∧ K r false m) t := by
  have hc := hK.undone_call hre nargs wanted ht hm
  cases he : call re nargs wanted m with
  | done a m₁ =>
    rw [he] at hc
    exact ⟨hc.1, hc.2, hc.2⟩
  | raised e m₁ =>
    rw [he] at hc
    obtain ⟨hr₁, hy, m₀, ht₀, hf, hm₀, hx⟩ := hc
    have hk := hK.landed ht₀ hm₀ (hf ▸ hx)
    exact ⟨hr₁, hK.careless hy hk, hk⟩
  | exhausted => trivial

theorem undone_holding (vs : List Value) (nargs : Nat) (wanted : Int) (ht : m.running = t)
    (hm : K t false m) :
    (holding vs (call re nargs wanted) m).Undone manners t m.frameCount c K := by
  have hh : ∀ {m : Machine} vs, K t false m → K t false { m with held := vs } := fun {m} vs hm =>
    hs.heap m _ rfl rfl List.prefix_rfl rfl hm
  have hc := hK.undone_call hre nargs wanted (m := { m with held := vs ++ m.held }) ht (hh _ hm)
  rw [holding, run_bind, run_read, Outcome.andThen_done, run_bind, run_modify, Outcome.andThen_done,
    run_bind]
  cases he : call re nargs wanted { m with held := vs ++ m.held } with
  | done a m₁ =>
    rw [he] at hc
    rw [run_attempt_done he]
    exact ⟨hc.1, hh _ hc.2⟩
  | raised e m₁ =>
    rw [he] at hc
    obtain ⟨hr₁, hy, m₀, ht₀, hf, hm₀, hx⟩ := hc
    rw [run_attempt_raised he]
    exact ⟨hr₁, hy, m₀, ht₀, hf, hm₀,
      { hx with intact := hx.intact.trans (intact_of_frames rfl rfl rfl) }⟩
  | exhausted =>
    rw [run_attempt_exhausted he]
    trivial

variable [K.Homed t]

theorem keeps_call (nargs : Nat) (wanted : Int) :
    Keeps K (call re nargs wanted) :=
  keeps_of (hre.distant.safe.call nargs wanted) fun _ ht hm =>
    (hK.ends_call hre nargs wanted ht hm).imp fun _ _ h => h.1

theorem holds_call (nargs : Nat) (wanted : Int) :
    Holds K (call re nargs wanted) where
  ends m hm := by
    by_cases ht : m.running = t
    · rw [ht] at hm ⊢
      exact (hK.ends_call hre nargs wanted ht hm).imp fun _ _ h => h.2
    · exact ((hre.distant.safe.call nargs wanted).ends m ⟨ht, hm⟩).imp fun y m' hm' =>
        ((elsewhere_deaf.yield y).mp hm').2

theorem keeps_runHandler (handler v : Value) :
    Keeps K (runHandler re handler v) := by
  unfold runHandler
  refine Keeps.bind inferInstance fun _ => Keeps.bind inferInstance fun _ =>
    (hK.holds_call hre 1 1).attempt fun r => ?_
  cases r <;> infer_instance

theorem keeps_caughtValue (handler : Option Value) (e : Error) :
    Keeps K (caughtValue re handler e) := by
  unfold caughtValue
  cases handler with
  | none => exact keeps_pure _
  | some k => exact (hK.keeps_runHandler hre k _).bind fun _ => keeps_pure _

theorem keeps_pcall (nargs : Nat) (wanted handler : Int) :
    Keeps K (Exec.pcall re nargs wanted handler) := by
  refine keeps_of (hre.distant.safe.pcall nargs wanted handler) fun m ht hm => ?_
  unfold Exec.pcall
  dsimp only
  split
  all_goals
    refine ends_andThen (Keeps.endsIn inferInstance ht hm) fun handler m₁ h₁ hm₁ => ?_
    have hc := hK.undone_holding hre handler.toList nargs wanted h₁ hm₁
    have hr := hK.ready h₁ hm₁
    rw [run_bind, run_frameCount, Outcome.andThen_done, run_bind, run_top, Outcome.andThen_done,
      run_bind, run_readThread, Outcome.andThen_done, run_bind]
    cases he : holding handler.toList (call re nargs wanted) m₁ with
    | done a m₂ =>
      rw [he] at hc
      rw [run_attempt_done he]
      exact hc
    | raised e m₂ =>
      rw [he] at hc
      rw [run_attempt_raised he, Outcome.andThen_done]
      obtain ⟨h₂, -, m₀, h₀, hf, hm₀, hx⟩ := hc
      have hc₁ : m₁.thread.counts = c := by
        rw [Machine.thread, h₁]
        exact hr.counts
      have hk := hK.keeps_runHandler hre
      subst h₂
      obtain ⟨us, hu, hc⟩ := run_truncateFrames (max m₁.frameCount 1) m₂
      change Outcome.Ends K m₂.running (((truncateFrames (max m₁.frameCount 1)) m₂).andThen _)
      rw [hc, Outcome.andThen_done, run_bind, run_modifyThread, Outcome.andThen_done]
      have hx' := (hx.cut (Nat.le_max_left m₁.frameCount 1) hu).counted m₁.thread.counts
        fun _ => False.elim
      obtain rfl := hc₁
      refine Keeps.endsIn ?_ rfl (hK.landed h₀ hm₀ (hf ▸ hx'))
      cases handler <;> infer_instance
    | exhausted =>
      rw [run_attempt_exhausted he]
      trivial

/-- A thread that is running cannot be resumed, unless it has yielded. -/
theorem keeps_resume (hn : ¬manners.tactful) (source : Option ThreadId) (nargs : Nat) :
    Keeps K.quiet (Exec.resume re source nargs) where
  ends m hm := by
    by_cases ht : m.running = t
    · have hf : ∀ reason, (refuse reason nargs m).Ends K.quiet m.running := fun reason =>
        (inferInstance : Keeps K.quiet (refuse reason nargs)).ends m hm
      have hs : m.thread.status ≠ .yield ∧ 1 < m.frameCount := by
        have hr := hK.ready ht (ht ▸ hm.2)
        have hmany := Homed.many (t := t) hm.2
        subst ht
        exact ⟨fun hy => hn (hr.status hy), hmany⟩
      rw [resume_eq]
      split
      · exact hf _
      · exact hf _
    · exact ((hre.distant.safe.resume source nargs).ends m ⟨hm.1, ht, hm.2⟩).imp
        fun _ _ h => ⟨h.1, h.2.2⟩

end Condition.Returning
end LuaMachine
