import LuaMachine.Proofs.Suspension.Metamethod

namespace LuaMachine

open Machine Exec Relation

/-- In which frames of a thread a comparison is open whose result has to be negated. -/
def Thread.negations (th : Thread) : Array Bool := th.frames.map Frame.negated

theorem Machine.negations_modifyLevel (m : Machine) (t t' : ThreadId) (level : Nat)
    {g : Frame → Frame} (hg : ∀ f, (g f).negated = f.negated) :
    ((m.modifyLevel t' level g).threadAt t).negations = (m.threadAt t).negations := by
  rw [modifyLevel, threadAt_modify]
  split
  · apply Array.ext_getElem?
    intro k
    rw [Thread.negations, Thread.negations, Array.getElem?_map, Array.getElem?_map, modifyFrames,
      Array.getElem?_modify]
    split
    · rw [Option.map_map]
      exact congrFun (congrArg Option.map (funext hg)) _
    · rfl
  · rfl

theorem Machine.negations_modifyTop (m : Machine) (t t' : ThreadId) {g : Frame → Frame}
    (hg : ∀ f, (g f).negated = f.negated) :
    ((m.modifyTop t' g).threadAt t).negations = (m.threadAt t).negations := by
  rw [modifyTop_eq]
  exact m.negations_modifyLevel t t' _ hg

def Condition.Even (t : ThreadId) (l : Array Bool) : Condition := fun _ y m =>
  y = false ∧ (m.threadAt t).negations = l

instance Condition.Even.firm (t : ThreadId) (l : Array Bool) : Condition.Firm (Even t l) where
  heap m m' ht _ _ _ hm := ⟨hm.1, by rw [threadAt, ht]; exact hm.2⟩
  closed _ hm := hm
  assigned _ _ _ _ hm := hm
  closing {r _ m} start hm := by
    refine ⟨hm.1, Eq.trans ?_ hm.2⟩
    exact (m.closeAll ((m.frameAt r).captured.filter (start ≤ ·.1))).negations_modifyTop t r fun _ => rfl
  capturing {r _ m} slot _ _ hm := by
    refine ⟨hm.1, Eq.trans ?_ hm.2⟩
    exact ({ m with upvalues := m.upvalues.push _ } : Machine).negations_modifyTop t r fun _ => rfl
  discreet {r _ m} g hg hm := ⟨hm.1, (m.negations_modifyTop t r hg.negated).trans hm.2⟩
  register {_ _ m} u p v _ hm := by
    refine ⟨hm.1, Eq.trans ?_ hm.2⟩
    exact m.negations_modifyLevel t p.thread p.level fun _ => rfl

theorem Machine.negated_frameAt (m : Machine) (t : ThreadId) :
    (m.frameAt t).negated = (m.threadAt t).negations.back?.getD false := by
  rw [frameAt, Thread.negations, Array.back?_map]
  cases (m.threadAt t).frames.back? <;> rfl

theorem Machine.size_negations (m : Machine) (t : ThreadId) :
    (m.threadAt t).negations.size = (m.threadAt t).frames.size := Array.size_map

theorem Exec.keeps_plainInstruction_of_firm {K : Condition} [K.Firm] (re : Reentry)
    {i : Instruction} {op : Opcode} (ho : i.opcode? = some op) (he : i.extension? = none)
    (hs : i.callSite? = none) : Keeps K (plainInstruction re op i) := by
  rw [Instruction.extension?, ho] at he
  rw [Instruction.callSite?, ho] at hs
  unfold plainInstruction
  cases op <;> first | infer_instance | (cases he; done) | cases hs

/-- What an instruction comes to if it neither calls nor yields: the frame has not changed, or it is
gone. -/
def Outcome.Stays (t : ThreadId) (n : Nat) : Outcome (Option CallSite) → Prop
  | .done none m => m.Between t n
  | .done (some _) _ | .exhausted => True
  | .raised e _ => e ≠ .yield

section Stays

variable {t : ThreadId} {n : Nat} {m m' m₀ m₁ : Machine} {α : Type}

theorem Outcome.Stays.bind {x : Exec α} {f : α → Exec (Option CallSite)}
    (hx : ∀ l, Keeps (Condition.Even m.running l) x) (hf : ∀ a m', (f a m').Stays t n) :
    ((x >>= f) m).Stays t n := by
  have hk := (hx _).ends m ⟨rfl, rfl⟩
  rw [run_bind]
  cases he : x m with
  | done a m' => exact hf a m'
  | raised e m' =>
    rw [he] at hk
    rintro rfl
    cases hk.2.1
  | exhausted => trivial

theorem Exec.returnFrom_stays (a b : Nat) (m : Machine) : ((some <$> returnFrom a b) m).Stays t n := by
  have hl (first : Nat) (m : Machine) : ((some <$> leave first) m).Stays t n := by
    obtain ⟨us, -, he⟩ := run_leave first m
    rw [← bind_pure_comp, run_bind, he]
    trivial
  unfold returnFrom
  cases b with
  | zero =>
    rw [map_bind]
    refine .bind (fun _ => inferInstance) fun _ m => ?_
    rw [map_bind]
    exact .bind (fun _ => inferInstance) fun _ m => hl _ m
  | succ b =>
    dsimp only
    rw [map_bind]
    refine .bind (fun _ => inferInstance) fun _ m => ?_
    rw [map_bind]
    exact .bind (fun _ => inferInstance) fun _ m => hl _ m

namespace Machine.Between

variable (hm : m.Between t n)
include hm

theorem of (hr : m'.Runs) (ht : m'.running = t)
    (hl : (m'.threadAt t).negations = (m.threadAt t).negations) : m'.Between t n := by
  obtain ⟨hruns, rfl, rfl, hn⟩ := hm
  refine ⟨hr, ht, ?_, ?_⟩
  · rw [Machine.frameCount, Machine.thread, ht, ← size_negations, hl, size_negations]
    rfl
  · rw [Machine.frame, negated_frameAt, ht, hl, ← negated_frameAt]
    exact hn

theorem modifyTop {g : Frame → Frame} (hg : (g m.frame).negated = m.frame.negated) :
    (m.modifyTop m.running g).Between t n :=
  ⟨hm.runs.touches (.modifyTop m g), hm.running, (m.size_modifyTop ..).trans hm.frameCount,
    (congrArg Frame.negated (frameAt_modifyTop_self hm.runs.inner g)).trans (hg.trans hm.negated)⟩

theorem fetched {i : Instruction} (hf : fetch m = .done i m₁) : m₁.Between t n := by
  obtain ⟨rfl, -⟩ := Exec.fetched hm.runs.inner hf
  exact hm.modifyTop rfl

section Execution

variable {host : Host} (hh : host.Honest) {fuel : Nat} {i : Instruction}
include hh

theorem runs_execute (hx : execute (host.reentry fuel) m = .done none m') :
    m'.running = t ∧ m'.Runs := by
  obtain ⟨hruns, rfl, rfl, -⟩ := hm
  obtain ⟨k, hk⟩ : ∃ k, m.frameCount = k + 1 := ⟨m.frameCount - 1, by have := hruns.inner; omega⟩
  have hk₀ : 0 < k := by have := hruns.inner; omega
  have hl := hruns.landed
  rw [hk] at hl
  have ha := Aloft.atop_execute (host.shelters (fun _ => hh) _ fuel) rfl
    (hl.aloft hk₀ (getElem?_top hk)) (.running m') (by rw [hx]; rfl)
  have hlt := ha.2.kept.lt_frameCount ha.1
  exact ⟨ha.1, .ofLanded (ha.2.ready ha.1) trivial ha.1 (by omega)⟩

theorem execute_stays (hf : fetch m = .done i m₁) (he : i.extension? = none)
    (hs : i.callSite? = none) : (execute (host.reentry fuel) m).Stays t n := by
  cases ho : i.opcode? with
  | none =>
    rw [execute_fetched _ hf, carryOut, ho]
    intro h
    cases h
  | some op =>
    by_cases hr : op = .return
    · subst hr
      rw [execute_fetched _ hf, carryOut_return _ ho]
      exact returnFrom_stays ..
    · have hm₁ := hm.fetched hf
      have hk := (keeps_plainInstruction_of_firm (K := Condition.Even t (m₁.threadAt t).negations)
        (host.reentry fuel) ho he hs).endsIn hm₁.running ⟨rfl, rfl⟩
      have hx (m' : Machine) (hx : execute (host.reentry fuel) m = .done none m') :=
        hm.runs_execute hh hx
      rw [execute_plain hf ho hr rfl] at hx ⊢
      rw [run_bind] at hx ⊢
      cases hp : plainInstruction (host.reentry fuel) op i m₁ with
      | done _ m' =>
        rw [hp] at hx hk
        obtain ⟨ht, hruns⟩ := hx m' rfl
        exact hm₁.of hruns ht hk.2.2
      | raised e m' =>
        rw [hp] at hk
        rintro rfl
        cases hk.2.1
      | exhausted => trivial

end Execution

theorem returned {h : Nat} {vs : List Value} {wanted : Int}
    (hx : Returned True t n h vs wanted m m') (ht : m'.running = t) : m'.Between t n := by
  obtain ⟨hruns, rfl, rfl, hn⟩ := hm
  obtain ⟨k, hk⟩ : ∃ k, m.frameCount = k + 1 := ⟨m.frameCount - 1, by have := hruns.inner; omega⟩
  refine ⟨hx.runs ht hruns.inner, ht, hx.frameCount ht, ?_⟩
  rw [hk] at hx
  obtain ⟨g, hkept, hf⟩ := hx.frame ht hk
  rw [hf]
  have hc := congrArg Frame.negated hkept.1
  exact Eq.trans hc hn

end Machine.Between

section Completion

variable {host : Host} {fuel stop : Nat} {p q : Point} {i : Instruction} {site site' : CallSite}

theorem Host.Completes.of_stays (hc : host.Completes n m' fuel stop p) {x : Outcome (Option CallSite)}
    (hx : x.Stays t n) (hp : x.point? = some p) : m'.Between t n := by
  cases hc with
  | done hs =>
    cases x with
    | done site? m =>
      cases site? <;> cases hp
      exact hx
    | raised _ _ | exhausted => cases hp
  | waited hw =>
    cases x with
    | done site? m =>
      cases site? <;> cases hp
      · exact absurd hx.frameCount (Nat.ne_of_gt hw)
      · exact hw.elim
    | raised e m =>
      cases hp
      exact absurd hw hx
    | exhausted => cases hp

theorem CallSite.stored_negated (site : CallSite) (f : Frame) :
    (site.stored f).negated = f.negated := by
  have hl (a c : Nat) : (Frame.stored a c f).negated = f.negated := by
    cases c with
    | zero => rfl
    | succ c =>
      change (List.foldl Frame.replaced f _).negated = _
      induction (List.range' a c).reverse generalizing f with
      | nil => rfl
      | cons s l ih =>
        refine (ih (f.replaced s)).trans ?_
        unfold Frame.replaced
        split <;> rfl
  cases site with
  | call a c => exact hl a c
  | iterator a c => exact hl (a + 3) (c + 1)
  | _ => rfl

theorem Machine.Between.accept_stays (hm : m.Between t n) (re : Reentry)
    (hs : i.callSite? = some site) : (accept re site m).Stays t n := by
  rw [accept_stored re hs hm.runs.inner]
  exact hm.modifyTop (site.stored_negated m.frame)

theorem Host.Completes.called (hh : host.Honest) (hn : 1 < n) (hc : host.Completes n m' fuel stop p)
    (hm : m.Between t n) (hw : p.Waits n) (hs : i.callSite? = some site) {h : Nat} {o : Origin}
    (ho : o.site = site) (hp : p.Pends t n h o m) : m'.Between t n := by
  cases hc with
  | done hx => exact absurd hx (Nat.ne_of_gt hw)
  | @waited _ _ fuel' stop' _ q site' m₂ _ hd hq hc =>
    obtain ⟨rfl, ht, vs, hx⟩ := hd.returned hh hn hp
    have hm₂ := hm.returned hx ht
    have hq : (accept (host.reentry fuel') o.site m₂).point? = some q := by
      change (if _ then none else _) = _ at hq
      split at hq
      · cases hq
      · exact hq
    exact hc.of_stays (hm₂.accept_stays _ (ho ▸ hs)) hq

theorem Machine.Between.inquires (hm : m.Between t n) (hf : fetch m = .done i m₁) (e : Extension) :
    (inquireFor i e m₁).Inquires i e (i.c - i.b) m₁.frame.top m₁ := by
  have hm₁ := hm.fetched hf
  have hi : m₁.Inquiring m₁ i m₁.frame.top :=
    ⟨.refl m₁, hm₁.runs.inner, (Exec.fetched hm.runs.inner hf).2, rfl⟩
  exact hi.inquires hm₁.negated e

theorem Machine.Between.attends (hm : m.Between t n) (hf : fetch m = .done i m₁) :
    m₁.Attends (m.Aliased t (n - 1)) t n := by
  have hm₁ := hm.fetched hf
  obtain ⟨rfl, -⟩ := Exec.fetched hm.runs.inner hf
  exact ⟨hm₁.runs, hm₁.running, hm₁.frameCount, fun _ => id⟩

theorem Host.Completes.summoned (hh : host.Honest) (hc : host.Completes n m' fuel stop p)
    (hm : m.Between t n) (hf : fetch m = .done i m₁) (hs : i.callSite? = some site)
    (hp : (execute (host.reentry fuel) m).point? = some p) : m'.Between t n := by
  have hn : 1 < n := hm.frameCount ▸ hm.runs.inner
  have hm₁ := hm.fetched hf
  rw [execute_summon _ hf hs, run_bind] at hp
  have hk : (summon i m₁).Ends (Condition.Even t (m₁.threadAt t).negations) t := by
    have : Keeps (Condition.Even t (m₁.threadAt t).negations) (summon i) := by
      unfold summon
      split <;> infer_instance
    exact this.endsIn hm₁.running ⟨rfl, rfl⟩
  cases hx : summon i m₁ with
  | exhausted =>
    rw [hx] at hp
    cases hp
  | raised e m₂ =>
    rw [hx] at hp hk
    refine hc.of_stays (t := t) (x := .raised e m₂) ?_ hp
    rintro rfl
    cases hk.2.1
  | done r m₂ =>
    rw [hx] at hp hk
    have hm₂ : m₂.Between t n :=
      hm₁.of (hm₁.runs.touches (Local.touches hx)) hk.1 hk.2.2
    have hb := begun_launch (host.shelters (fun _ : True => hh) t fuel) r.1 r.2 site.wanted site
      (hm₂.running ▸ hm₂.frameCount ▸ hm₂.runs.landed) hm₂.running
    rw [Outcome.andThen_done, run_bind] at hp
    cases hl : launch (host.reentry fuel) r.1 r.2 site.wanted site m₂ with
    | exhausted =>
      rw [hl] at hp
      cases hp
    | done left m₃ =>
      rw [hl] at hp hb
      cases left with
      | true =>
        cases hp
        obtain ⟨ht, o, hsite, -, ha⟩ := hb
        exact hc.called hh hn hm₂ (ha.kept.lt_frameCount ht) hs hsite
          (.inl ⟨ht, ha.shelter fun _ => rfl⟩)
      | false =>
        obtain ⟨ht, vs, hx⟩ := hb
        exact hc.of_stays ((hm₂.returned (hx.handed.returned hn fun _ => rfl) ht).accept_stays _ hs) hp
    | raised e m₃ =>
      rw [hl] at hp hb
      cases hp
      obtain ⟨ht, hx⟩ := hb
      by_cases he : e = .yield
      · subst he
        obtain hx | ⟨-, o, hsite, -, ha⟩ := hx
        · exact hc.called hh hn hm₂ rfl hs (o := ⟨none, [], site, site.wanted⟩) rfl
            (.inr ⟨m₃, rfl, ht, hx.abandoned hn fun _ => rfl⟩)
        · exact hc.called hh hn hm₂ rfl hs hsite (.inl ⟨ht, ha.kept.shelter fun _ => rfl⟩)
      · exact hc.of_stays (t := t) (x := .raised e m₃) he rfl

/-- Once an instruction is completed, the frame is before the next one. -/
theorem Host.Completes.between (hh : host.Honest) (hc : host.Completes n m' fuel stop p)
    (hm : m.Between t n) (hp : Point.Moves (host.reentry fuel) stop (.running m) p) :
    m'.Between t n := by
  change (execute (host.reentry fuel) m).point? = some p at hp
  have hn : 1 < n := hm.frameCount ▸ hm.runs.inner
  cases hf : fetch m with
  | exhausted =>
    rw [execute, run_bind, hf] at hp
    cases hp
  | raised e m₁ =>
    have hk := (keeps_fetch (K := Condition.Even t (m.threadAt t).negations)).endsIn hm.running
      ⟨rfl, rfl⟩
    rw [hf] at hk
    rw [execute, run_bind, hf] at hp
    refine hc.of_stays (t := t) (x := .raised e m₁) ?_ hp
    rintro rfl
    cases hk.2.1
  | done i m₁ =>
    cases he : i.extension? with
    | some e =>
      obtain ⟨-, -, hm'⟩ := hc.dialogue hh hn (follows_execute _ hm.runs.inner hf he hm.negated) hp
        (hm.attends hf) (hm.inquires hf e) he
      exact hm'
    | none =>
      cases hs : i.callSite? with
      | some site => exact hc.summoned hh hm hf hs hp
      | none => exact hc.of_stays (hm.execute_stays hh hf he hs) hp

end Completion

end Stays
end LuaMachine
