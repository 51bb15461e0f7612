import LuaMachine.Proofs.Clearance.Instruction

namespace LuaMachine

open Machine Exec

variable {up running : ThreadId → Prop} {m m' : Machine} {t : ThreadId}

namespace Machine.ClearAbove

theorem parking (h : m.ClearAbove up) (ht : ¬up t) (parked : Bool)
    (hm : m'.threads = m.threads.modify t.index fun th => { th with parked })
    (hv : m'.upvalues = m.upvalues) (hf : m'.functions = m.functions) : m'.ClearAbove up := by
  have he (x : ThreadId) : m'.threadAt x =
      ({ m with threads := m.threads.modify t.index fun th => { th with parked } } : Machine).threadAt x := by
    rw [threadAt, hm, threadAt]
  refine h.ofFrames (fun x => ?_) hv hf fun x hx => ?_
  · rw [he]
    exact fields_modify Thread.frames m t x fun _ => rfl
  · rw [he, threadAt_modify, if_neg (c := x = t ∧ _) fun hc => ht (hc.1 ▸ hx)]
    exact h.inUse x hx

theorem not_inUse (h : m.ClearAbove up) (ht : m.AtRest t) : ¬up t := fun hu =>
  Bool.false_ne_true ((h.inUse t hu).symm.trans ht.parked)

theorem taking (h : m.ClearAbove up) (ht : m.AtRest t) : (m.taking t).ClearAbove fun x => x = t ∨ up x := by
  have ht' : (m.taking t).ClearAbove up := h.parking (h.not_inUse ht) false rfl rfl rfl
  refine { ht' with inUse := fun x hx => ?_ }
  rcases hx with rfl | hx
  · exact congrArg Thread.parked (m.threadAt_modify_there ht.there fun th => { th with parked := false })
  · exact ht'.inUse x hx

theorem resting (h : m.ClearAbove up) (ht : ¬up t) (previous : ThreadId) :
    (m.resting t previous).ClearAbove up := h.parking ht true rfl rfl rfl

end Machine.ClearAbove

class Reentry.Clears (re : Reentry) : Prop extends Reentry.Sheltered re where
  invoke : ∀ up f, Keeps (Condition.ClearAbove up up) (re.invoke f)
  dispatch : ∀ up stop site, Keeps (Condition.ClearAbove up up) (re.dispatch stop site)

/-- What is done in a thread that is taken up is done with one more thread in use. -/
theorem Exec.keeps_inThreadClear {α : Type} {x : Exec α}
    (hx : ∀ up, Keeps (Condition.ClearAbove up up) x) (t : ThreadId) :
    Keeps (Condition.ClearAbove up running) (inThread t x) where
  ends m h := ends_inThread h (fun ht => (hx _).endsIn rfl ⟨h.1.taking ht, .inl rfl⟩)
    fun _ _ ht hm' => ⟨(hm'.1.mono fun _ => .inr).resting (h.1.not_inUse ht) m.running, h.2⟩

theorem Exec.keeps_inThreadOrBusyClear {x : Exec Reply} (hx : ∀ up, Keeps (Condition.ClearAbove up up) x)
    (t : ThreadId) : Keeps (Condition.ClearAbove up running) (inThreadOrBusy t x) := by
  have : Keeps (Condition.ClearAbove up running) (inThread t x) := keeps_inThreadClear hx t
  unfold inThreadOrBusy
  infer_instance

section Reentry

variable (re : Reentry) [hre : re.Clears]

instance Reentry.safe_clear : re.Safe (Condition.ClearAbove up up) :=
  re.safe_framed (hre.invoke up) (hre.dispatch up)

instance Reentry.starts_clear : re.Starts (Condition.ClearAbove up up) :=
  re.starts_framed (hre.invoke up) (hre.dispatch up)

instance Reentry.resumes_clear : re.Resumes (Condition.ClearAbove up running) :=
  Library.Coroutine.resumes_of_lent re fun {m} t nargs =>
    (keeps_inThreadClear (fun _ => Library.Coroutine.keeps_resumeLent re m.running t nargs) t).ends m

instance Reentry.lends_clear : re.Lends (Condition.ClearAbove up running) where
  resume t _ _ := keeps_inThreadOrBusyClear (fun _ => inferInstance) t
  move t _ _ _ := keeps_inThreadOrBusyClear (fun _ => inferInstance) t

end Reentry

theorem Exec.keeps_performClear (re : Reentry) [re.Clears] (up : ThreadId → Prop)
    (outer : Option ThreadId) (op : Operation) :
    Keeps (Condition.ClearAbove up up) (perform re outer op) := by
  match op with
  | .stack op => exact keeps_performStack op
  | .table op => exact keeps_performTable re op
  | .call op => exact keeps_performCall re outer op (.inr inferInstance) fun e _ => lax_deaf e
  | .library op => exact keeps_performLibrary re op
  | .within i operations =>
    have hx (here t : ThreadId) : Keeps (Condition.ClearAbove up up)
        (inThreadOrBusy t do return .steps (← performAll re (some here) operations)) :=
      keeps_inThreadOrBusyClear (fun up => by
        have hall : Keeps (Condition.ClearAbove up up) (performAll re (some here) operations) :=
          (keeps_performEach re (some here) operations fun op _ =>
            keeps_performClear re up (some here) op).ofAway
        infer_instance) t
    unfold perform
    infer_instance
  | .attempt op =>
    have ho := keeps_performClear re up outer op
    unfold perform
    infer_instance

/-- Whatever a tactful host runs leaves nothing above the tops. -/
theorem Host.clears_reentry {host : Host} (hh : host.Tactful) (fuel : Nat) :
    (host.reentry fuel).Clears := by
  -- what is done in a thread that is taken up asks for one more thread in use, hence any set of them
  induction fuel with
  | zero =>
    exact { shelters := fun t => host.shelters_mannered False.elim (fun _ => hh) t 0
            invoke := fun _ _ => keeps_exhausted
            dispatch := fun _ _ _ => keeps_exhausted }
  | succ fuel ih =>
    have hi (up f) := ih.invoke up f
    have hd (up stop site) := ih.dispatch up stop site
    exact { shelters := fun t => host.shelters_mannered False.elim (fun _ => hh) t (fuel + 1)
            invoke := fun up f => host.keeps_scripts (host.reentry fuel)
              (fun op _ => keeps_performClear (host.reentry fuel) up none op) f fun _ => inferInstance
            dispatch := fun _ stop site => keeps_dispatch (host.reentry fuel) fuel stop site }

end LuaMachine
