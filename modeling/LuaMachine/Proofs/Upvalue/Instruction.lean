import Mathlib.Data.List.Nodup
import LuaMachine.Proofs.OpenList.Instruction
import LuaMachine.Proofs.Upvalue.Value

namespace LuaMachine

open Machine

namespace Machine

variable {m m' : Machine} {u u' : UpvalueId} {p : Register}

theorem Captures.upvalue_eq (h : m.Captures) (hu : m.Registered u p) (hu' : m.Registered u' p) :
    u = u' := by
  have he := List.inj_on_of_nodup_map (h.slots p.thread p.level) hu hu' rfl
  exact congrArg Prod.snd he

theorem Registered.exists_frame (h : m.Registered u p) : p.thread.index < m.threads.size ∧
    ∃ f, (m.threadAt p.thread).frames[p.level]? = some f := by
  refine ⟨Nat.not_le.mp fun hc => ?_, ?_⟩
  · rw [Registered, threadAt_of_le hc] at h
    have hn : (default : Thread).capturedAt p.level = [] := by cases p.level <;> rfl
    rw [hn] at h
    cases h
  · unfold Registered Thread.capturedAt at h
    cases hf : (m.threadAt p.thread).frames[p.level]? with
    | none =>
      rw [hf] at h
      cases h
    | some f => exact ⟨f, rfl⟩

theorem registerValue_setSlot (h : m.Registered u p) (v : Value) (p' : Register) :
    (m.modifyLevel p.thread p.level (·.setSlot p.slot v)).registerValue p' =
      if p' = p then v else m.registerValue p' := by
  obtain ⟨ht, f, hf⟩ := h.exists_frame
  obtain ⟨t, level, slot⟩ := p
  obtain ⟨t', level', slot'⟩ := p'
  simp only at ht hf
  unfold registerValue modifyLevel
  rw [threadAt_modify]
  by_cases htt : t' = t
  · subst htt
    rw [if_pos ⟨rfl, ht⟩]
    simp only [modifyFrames, Array.getElem?_modify]
    by_cases hl : level = level'
    · subst hl
      simp [hf, Frame.slot_setSlot, eq_comm]
    · simp [hl, Ne.symm hl]
  · simp [htt]

theorem frameAt_modifyTop_some {t : ThreadId} (h : (m.frameAt t).function ≠ none)
    (g : Frame → Frame) : (m.modifyTop t g).frameAt t = g (m.frameAt t) := by
  obtain ⟨ht, hf⟩ := exists_frameAt h
  rw [frameAt, modifyTop, threadAt_modify, if_pos ⟨rfl, ht⟩, Array.back?, modifyFrames,
    Array.size_modify, Array.getElem?_modify, if_pos rfl, hf]
  rfl

structure Capturing (m m' : Machine) : Prop where
  running : m'.running = m.running
  frameCount : m'.frameCount = m.frameCount
  function : m'.frame.function = m.frame.function
  functions : m'.functions = m.functions
  captures : m'.Captures
  registered : ∀ u p, m.Registered u p → m'.Registered u p

theorem Capturing.refl (h : m.Captures) : m.Capturing m := ⟨rfl, rfl, rfl, rfl, h, fun _ _ hr => hr⟩

theorem Capturing.trans {m₁ : Machine} (h : m.Capturing m₁) (h' : m₁.Capturing m') :
    m.Capturing m' where
  running := h'.running.trans h.running
  frameCount := h'.frameCount.trans h.frameCount
  function := h'.function.trans h.function
  functions := h'.functions.trans h.functions
  captures := h'.captures
  registered u p hr := h'.registered u p (h.registered u p hr)

theorem Capturing.ownUpvalue? (h : m.Capturing m') (i : Nat) :
    m'.ownUpvalue? i = m.ownUpvalue? i := by
  unfold Machine.ownUpvalue? functionOf functionAt
  rw [h.function, h.functions]

def ownRegister (m : Machine) (slot : Nat) : Register := ⟨m.running, m.frameCount - 1, slot⟩

theorem Capturing.ownRegister (h : m.Capturing m') (slot : Nat) :
    m'.ownRegister slot = m.ownRegister slot := by
  unfold Machine.ownRegister
  rw [h.running, h.frameCount]

/-- A closure that is made gets an upvalue in place of a register, or one of the running function. -/
def Supplies (m m' : Machine) : Capture → UpvalueId → Prop
  | .register slot, u => m'.Registered u (m.ownRegister slot)
  | .upvalue i, u => m.ownUpvalue? i = some u

theorem Supplies.imp {m₁ : Machine} {c : Capture} (hs : m.Supplies m₁ c u)
    (hr : ∀ p, m₁.Registered u p → m'.Registered u p) : m.Supplies m' c u := by
  cases c with
  | register slot => exact hr _ hs
  | upvalue i => exact hs

theorem registerValue_own (hi : 1 < m.frameCount) (slot : Nat) :
    m.registerValue (m.ownRegister slot) = m.frame.slot slot := by
  have hs : (m.threadAt m.running).frames.size = m.frameCount - 1 + 1 :=
    (Nat.sub_add_cancel (Nat.le_of_lt hi)).symm
  rw [registerValue, ownRegister, getElem?_top hs]
  rfl

theorem registered_modifyTop (m : Machine) (t : ThreadId) {g : Frame → Frame}
    (hg : ∀ f, (g f).captured = f.captured) (u : UpvalueId) (p : Register) :
    (m.modifyTop t g).Registered u p ↔ m.Registered u p := by
  rw [modifyTop_eq, Registered, capturedAt_modifyLevel m t _ hg, Registered]

theorem Captures.modifyTop (h : m.Captures) (t : ThreadId) {g : Frame → Frame}
    (hg : ∀ f, (g f).captured = f.captured) : (m.modifyTop t g).Captures := by
  rw [modifyTop_eq]
  exact h.congr (capturedAt_modifyLevel m t _ hg) fun _ _ => .rfl

theorem Restacked.captured {g : Frame → Frame} (hg : Frame.Restacks g) (f : Frame) :
    (g f).captured = f.captured :=
  (congrArg Frame.captured (hg.control f) : (g f).control.captured = _)

theorem Restacked.captures (hr : m.Restacked m') (h : m.Captures) : m'.Captures := by
  obtain ⟨g, hg, rfl⟩ := hr
  exact h.modifyTop m.running (captured hg)

theorem Restacked.registered (hr : m.Restacked m') (u : UpvalueId) (p : Register) :
    m'.Registered u p ↔ m.Registered u p := by
  obtain ⟨g, hg, rfl⟩ := hr
  exact m.registered_modifyTop m.running (captured hg) u p

theorem Restacked.ownRegister (hr : m.Restacked m') (slot : Nat) :
    m'.ownRegister slot = m.ownRegister slot := by
  rw [Machine.ownRegister, hr.running, hr.frameCount, Machine.ownRegister]

def Returns (m : Machine) (i : Instruction) (regs : List Value) : Prop :=
  (∃ k, m.Holds regs.length regs ∧ i.b = k + 1 ∧ i.a + k ≤ regs.length) ∨
    ∃ b vs, m.Offers b regs vs ∧ i.b = 0 ∧ i.a ≤ b ∧ b ≤ regs.length ∧ b < 256

end Machine

namespace Exec

variable {m m' : Machine} {u : UpvalueId}

theorem writeUpvalue_value (h : m.Captures) (hu : u.index < m.upvalues.size) (v : Value) :
    ∃ m', writeUpvalue u v m = .done () m' ∧ m'.upvalueValue u = v ∧
      ∀ u' : UpvalueId, u'.index < m.upvalues.size → u' ≠ u →
        m'.upvalueValue u' = m.upvalueValue u' := by
  have hat : ∀ u' : UpvalueId, u'.index < m.upvalues.size →
      m.upvalues[u'.index]? = some (m.upvalueAt u') := fun u' hs => by
    rw [upvalueAt, Array.getD_eq_getD_getElem?, Array.getElem?_eq_getElem hs]
    rfl
  unfold writeUpvalue
  rw [run_bind, run_read, Outcome.andThen_done, hat u hu]
  cases ho : m.upvalueAt u with
  | opened p =>
    have hr : m.Registered u p := (h.opened u p).mpr (ho ▸ hat u hu)
    have hval := registerValue_setSlot hr v
    refine ⟨_, rfl, ?_, fun u' hs' hne => ?_⟩
    · exact (upvalueValue_opened (m := m.modifyLevel _ _ _) ho).trans ((hval p).trans (if_pos rfl))
    · cases ho' : m.upvalueAt u' with
      | opened p' =>
        have hr' : m.Registered u' p' := (h.opened u' p').mpr (ho' ▸ hat u' hs')
        have hp : p' ≠ p := fun hp => hne (h.upvalue_eq (hp ▸ hr') hr)
        rw [upvalueValue_opened ho', ← (hval p').trans (if_neg hp)]
        exact upvalueValue_opened (m := m.modifyLevel _ _ _) ho'
      | closed w =>
        rw [upvalueValue_closed ho']
        exact upvalueValue_closed (m := m.modifyLevel _ _ _) ho'
  | closed w =>
    refine ⟨_, rfl, ?_, fun u' hs' hne => ?_⟩
    · refine upvalueValue_closed (upvalueAt_of ?_)
      exact Array.getElem?_setIfInBounds_self_of_lt hu
    · have hi : u.index ≠ u'.index := fun hi => hne (congrArg UpvalueId.mk hi.symm)
      have hat' : ({ m with upvalues := m.upvalues.setIfInBounds u.index (.closed v) } :
          Machine).upvalueAt u' = m.upvalueAt u' := by
        simp only [upvalueAt, Array.getD_eq_getD_getElem?, Array.getElem?_setIfInBounds_ne hi]
      unfold upvalueValue
      rw [hat']
      rfl

/-- A register is captured by one upvalue, which all closures over it share. -/
theorem capture_registered (h : m.Captures) (hf : m.frame.function ≠ none) (slot : Nat) :
    ∃ u m', capture slot m = .done u m' ∧ m.Capturing m' ∧ m'.Registered u (m.ownRegister slot) ∧
      ∀ v, m.Registered v (m.ownRegister slot) → v = u ∧ m' = m := by
  have hc := m.capturedAt_frameAt m.running
  cases hs : m.frame.captured.find? (·.1 = slot) with
  | some p =>
    rw [capture_found hs]
    have hp : p.1 = slot := by simpa using List.find?_some hs
    have hr : m.Registered p.2 (m.ownRegister slot) := by
      rw [Registered, ← hp]
      exact hc ▸ List.mem_of_find?_eq_some hs
    exact ⟨p.2, m, rfl, .refl h, hr, fun v hv => ⟨h.upvalue_eq hv hr, rfl⟩⟩
  | none =>
    rw [capture_fresh hs]
    have hn : ∀ p ∈ (m.frameAt m.running).captured, p.1 ≠ slot := fun p hp he => by
      simpa [he] using List.find?_eq_none.mp hs p hp
    have hcap := m.capturedAt_capturing slot hf
    have hfun : (m.capturing m.running slot).frame.origin = m.frame.origin :=
      origin_modifyTop _ m.running _
    refine ⟨_, _, rfl, ⟨rfl, size_modifyTop _ _ _ _, congrArg Origin.function hfun, rfl,
      h.capturing slot hf hn, fun u p hr => ?_⟩, ?_, fun v hv => ?_⟩
    · rw [Registered, hcap]
      split
      · next he =>
        rw [Registered, he.1, he.2, hc] at hr
        exact List.mem_cons_of_mem _ hr
      · exact hr
    · rw [Registered, hcap, if_pos ⟨rfl, rfl⟩]
      exact List.mem_cons_self
    · have hm : (slot, v) ∈ m.frame.captured :=
        hc ▸ (hv : (slot, v) ∈ (m.threadAt m.running).capturedAt _)
      exact absurd rfl (hn _ hm)

theorem ownUpvalue_done {i : Nat} (he : ownUpvalue i m = .done u m') :
    m.ownUpvalue? i = some u ∧ m = m' := by
  unfold ownUpvalue at he
  rw [run_bind, run_read, Outcome.andThen_done] at he
  cases hu : m.ownUpvalue? i with
  | none =>
    rw [hu] at he
    cases he
  | some u' =>
    rw [hu] at he
    cases he
    exact ⟨rfl, rfl⟩

def supply : Capture → Exec UpvalueId
  | .register slot => capture slot
  | .upvalue i => ownUpvalue i

theorem supply_supplies {m₁ : Machine} (h : m.Capturing m₁) (hf : m.frame.function ≠ none)
    {c : Capture} (he : supply c m₁ = .done u m') : m₁.Capturing m' ∧ m.Supplies m' c u := by
  cases c with
  | register slot =>
    obtain ⟨u', m'', he', hc, hr, -⟩ := capture_registered h.captures (h.function ▸ hf) slot
    obtain ⟨rfl, rfl⟩ : u' = u ∧ m'' = m' := by simpa using he'.symm.trans he
    rw [h.ownRegister slot] at hr
    exact ⟨hc, hr⟩
  | upvalue i =>
    obtain ⟨hu, rfl⟩ : m₁.ownUpvalue? i = some u ∧ m₁ = m' := ownUpvalue_done he
    exact ⟨.refl h.captures, (h.ownUpvalue? i).symm.trans hu⟩

theorem mapM_supply {m₁ : Machine} (h : m.Capturing m₁) (hf : m.frame.function ≠ none)
    {cs : List Capture} {us : List UpvalueId} (he : cs.mapM supply m₁ = .done us m') :
    m₁.Capturing m' ∧ List.Forall₂ (m.Supplies m') cs us := by
  induction cs generalizing m₁ us with
  | nil =>
    cases he
    exact ⟨.refl h.captures, .nil⟩
  | cons c cs ih =>
    rw [List.mapM_cons] at he
    obtain ⟨u, m₂, hc, he⟩ := Outcome.andThen_eq_done he
    obtain ⟨us', m₃, hcs, he⟩ := Outcome.andThen_eq_done he
    cases he
    obtain ⟨h₂, hu⟩ := supply_supplies h hf hc
    obtain ⟨h', hus⟩ := ih (h.trans h₂) hcs
    exact ⟨h₂.trans h', .cons (hu.imp (h'.registered u)) hus⟩

theorem closureInstruction_supplies {i : Instruction} (h : m.Captures)
    (he : closureInstruction i m = .done () m') :
    ∃ p us f, m.prototype.bind (·.children[i.bx]?) = some p ∧ m'.frame.slot i.a = .function f ∧
      m'.functions[f.index]? = some { body := .bytecode p, upvalues := us.toArray } ∧
      List.Forall₂ (m.Supplies m') p.captures us := by
  unfold closureInstruction at he
  rw [run_bind, run_read, Outcome.andThen_done] at he
  cases hp : m.prototype.bind (·.children[i.bx]?) with
  | none =>
    rw [hp] at he
    cases he
  | some p =>
    rw [hp] at he
    have hf : m.frame.function ≠ none := fun hf => by
      simp [Machine.prototype, Machine.prototypeOf, Machine.functionOf, hf] at hp
    obtain ⟨us, m₁, hus, he⟩ := Outcome.andThen_eq_done he
    obtain ⟨h₁, hsup⟩ := mapM_supply (.refl h) hf hus
    let g : Function := { body := .bytecode p, upvalues := us.toArray }
    let m₂ : Machine := { m₁ with functions := m₁.functions.push g }
    let put : Frame → Frame := (·.setSlot i.a (.function ⟨m₁.functions.size⟩))
    change Outcome.done () (m₂.modifyTop m₂.running put) = _ at he
    cases he
    have hf₂ : (m₂.frameAt m₂.running).function ≠ none := fun hf₂ => hf (h₁.function.symm.trans hf₂)
    have hfr : (m₂.modifyTop m₂.running put).frame = put m₂.frame := frameAt_modifyTop_some hf₂ put
    have hreg : ∀ u p, m₁.Registered u p → (m₂.modifyTop m₂.running put).Registered u p :=
      fun u p => (m₂.registered_modifyTop m₂.running (g := put) (fun _ => rfl) u p).mpr
    refine ⟨p, us, ⟨m₁.functions.size⟩, rfl, ?_, Array.getElem?_push_size,
      hsup.imp fun c u hc => hc.imp (hreg u)⟩
    rw [hfr, Frame.slot_setSlot, if_pos rfl]

theorem closeFrom_closes (h : m.Captures) (start : Nat) :
    ∃ m', closeFrom start m = .done () m' ∧ m.Retains m' ∧ m'.Captures ∧
      ∀ u p, m'.Registered u p ↔ m.Registered u p ∧
        ¬(p.thread = m.running ∧ p.level = m.frameCount - 1 ∧ start ≤ p.slot) := by
  have hc : (m.threadAt m.running).capturedAt (m.frameCount - 1) = m.frame.captured :=
    m.capturedAt_frameAt m.running
  rw [run_closeFrom]
  split
  · next he =>
    refine ⟨m, rfl, .refl m, h, fun u ⟨t, level, slot⟩ => (and_iff_left_of_imp fun hr hp => ?_).symm⟩
    obtain ⟨rfl, rfl, -⟩ : t = m.running ∧ level = m.frameCount - 1 ∧ _ := hp
    rw [Registered, hc, List.isEmpty_iff.mp he] at hr
    cases hr
  · refine ⟨_, rfl, .closedFrom m m.running start, (Change.close m.running start).captures h,
      fun u ⟨t, level, slot⟩ => ?_⟩
    rw [Registered, capturedAt_closedFrom, Registered]
    split
    · next he =>
      obtain ⟨rfl, rfl⟩ : t = m.running ∧ level = m.frameCount - 1 := he
      rw [List.mem_filter]
      change (slot, u) ∈ m.frame.captured ∧ _ ↔
        (slot, u) ∈ (m.threadAt m.running).capturedAt (m.frameCount - 1) ∧ _
      rw [hc]
      simp
    · next he => exact (and_iff_left fun hp => he ⟨hp.1, hp.2.1⟩).symm

theorem jump_closes (re : Reentry) (h : m.Captures) (i : Instruction) :
    ∃ m', plainInstruction re .jmp i m = .done () m' ∧ m.Retains m' ∧ m'.Captures ∧
      ∀ u p, m'.Registered u p ↔ m.Registered u p ∧
        ¬(i.a ≠ 0 ∧ p.thread = m.running ∧ p.level = m.frameCount - 1 ∧ i.a ≤ p.slot + 1) := by
  let g : Frame → Frame := fun f => { f with pc := (f.pc + i.sbx).toNat }
  have hreg := m.registered_modifyTop m.running (g := g) fun _ => rfl
  have hret : m.Retains (m.modifyTop m.running g) := .modifyTop m m.running fun _ => rfl
  have hcap := h.modifyTop m.running (g := g) fun _ => rfl
  have hcount : (m.modifyTop m.running g).frameCount = m.frameCount := m.size_modifyTop ..
  have hrun : plainInstruction re .jmp i m =
      (if i.a != 0 then closeFrom (i.a - 1) else pure ()) (m.modifyTop m.running g) := rfl
  rw [hrun]
  by_cases ha : i.a = 0
  · refine ⟨m.modifyTop m.running g, by simp [ha], hret, hcap, fun u p => ?_⟩
    simp [hreg, ha]
  · obtain ⟨m', he, hr, hc, hreg'⟩ := closeFrom_closes hcap (i.a - 1)
    refine ⟨m', by simpa [ha] using he, hret.trans hr, hc, fun u p => ?_⟩
    rw [hreg', hreg, hcount, Nat.sub_le_iff_le_add]
    simp [ha, modifyTop]

/-- The results of a frame are taken off its stack before its upvalues are closed; what is in the
registers stays there. -/
theorem leave_closed {n : Nat} {regs ws : List Value} (h : m.Captures)
    (hm : m.Holds n (regs ++ ws)) : ∃ m', leave regs.length m = .done m.frame.site m' ∧
      ∀ s u v, m.Registered u (m.ownRegister s) → regs[s]? = some v →
        m'.upvalues[u.index]? = some (.closed v) := by
  have ht : m.frame.top - regs.length = ws.length := by
    rw [hm.top, List.length_append, Nat.add_sub_cancel_left]
  obtain ⟨m₁, h₁, hr₁, hm₁⟩ := Rearranges.drop ws m hm
  have he : m.modifyTop m.running (·.drop ws.length) = m₁ := (Outcome.done.inj h₁).2
  refine ⟨_, leave_eq regs.length m, fun s u v hr hs => ?_⟩
  rw [ht, he]
  change (m₁.closeAll m₁.frame.captured).upvalues[u.index]? = _
  have hreg : m₁.Registered u (m₁.ownRegister s) := by
    rw [hr₁.ownRegister, hr₁.registered]
    exact hr
  have hopen := ((hr₁.captures h).opened u _).mp hreg
  have hmem : (s, u) ∈ m₁.frame.captured := by
    rw [Machine.frame, ← capturedAt_frameAt]
    exact hreg
  have hl : s < m₁.frame.top := by
    rw [hm₁.top]
    exact (List.getElem?_eq_some_iff.mp hs).1
  rw [getElem?_closeAll, if_pos (List.mem_map_of_mem hmem), hopen, Option.map_some,
    upvalueValue_opened (upvalueAt_of hopen), registerValue_own hm₁.inner, Frame.slot_eq _ hl,
    hm₁.values, hs]
  rfl

theorem returnFrom_closed {i : Instruction} {regs : List Value} (h : m.Captures)
    (hm : m.Returns i regs) : ∃ m', returnFrom i.a i.b m = .done m.frame.site m' ∧
      ∀ s u v, m.Registered u (m.ownRegister s) → regs[s]? = some v →
        m'.upvalues[u.index]? = some (.closed v) := by
  obtain ⟨m₁, n, ws, hi, he, hr, hm₁⟩ : ∃ m₁ n ws, 1 < m.frameCount ∧
      returnFrom i.a i.b m = leave regs.length m₁ ∧ m.Restacked m₁ ∧ m₁.Holds n (regs ++ ws) := by
    rcases hm with ⟨k, hm, hb, hk⟩ | ⟨b, vs, hm, hb, hab, hbr, hs⟩
    · obtain ⟨m₁, he, hr, hm₁⟩ := returnFrom_pushed hm hk
      exact ⟨m₁, _, _, hm.inner, hb ▸ he, hr, hm₁⟩
    · obtain ⟨m₁, he, hr, hm₁⟩ := returnFrom_gathered hm hab hbr hs
      exact ⟨m₁, _, _, hm.inner, hb ▸ he, hr, hm₁⟩
  obtain ⟨m', hl, hc⟩ := leave_closed (hr.captures h) hm₁
  have hsite : m₁.frame.site = m.frame.site :=
    (congrArg Frame.site (hr.control hi) : m₁.frame.control.site = _)
  refine ⟨m', by rw [he, hl, hsite], fun s u v hu => hc s u v ?_⟩
  rw [hr.ownRegister, hr.registered]
  exact hu

end Exec
end LuaMachine
