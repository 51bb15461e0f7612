import LuaMachine.Proofs.Launch
import LuaMachine.Proofs.OpenList.Gather

namespace LuaMachine

open Machine

namespace Machine

variable {m m' : Machine} {n : Nat} {vs : List Value}

theorem Restacked.cut (h : m.Restacked m') (us : Array Upvalue) :
    m'.cut m'.running (m'.frameCount - 1) us = m.cut m.running (m.frameCount - 1) us := by
  rw [h.frameCount]
  obtain ⟨g, -, rfl⟩ := h
  exact m.cut_modifyTop m.running g us

def withItems (m : Machine) (t : TableId) (start : Nat) (items : List Value) : Machine :=
  { m with tables := m.tables.modify t.index fun table =>
      (items.foldl (fun (table, i) v => (table.putInt (Int64.ofNat (i + 1)) v, i + 1))
        (table, start)).1 }

/-- The running frame is gone, and the one below it has its results. -/
def left (m : Machine) (us : Array Upvalue) (vs : List Value) : Machine :=
  (m.cut m.running (m.frameCount - 1) us).modifyTop m.running (·.pushAll (adjust vs m.frame.wanted))

end Machine

namespace Exec

variable (re : Reentry) {n a b : Nat} {regs vs ws args : List Value} {callee : Value} {m : Machine}

def makeCall (a c : Nat) (callee : Value) (args : List Value) : Exec Unit := do
  let running ← callValue re callee args (c - 1 : Int) (.call a c)
  if !running then storeResults (a + 1) c

theorem enter_holds (hm : m.Holds n (vs ++ callee :: args)) (wanted : Int) (site : CallSite) :
    ∃ m', enter re args.length wanted site m = callValue re callee args wanted site m' ∧
      m.Restacked m' ∧ m'.Holds n vs := by
  rw [List.append_cons] at hm
  obtain ⟨m₁, h₁, hr₁, hm₁⟩ := Rearranges.popMany args m hm
  obtain ⟨m₂, h₂, hr₂, hm₂⟩ := Rearranges.pop callee m₁ hm₁
  refine ⟨m₂, ?_, hr₁.trans hr₂, hm₂⟩
  rw [enter_eq, takeCall, run_bind, run_bind, h₁, Outcome.andThen_done, run_bind, h₂]
  rfl

theorem callRegister_holds {c : Nat} {m₁ : Machine} (hp : pushCall (a + 1) b m = .done args.length m₁)
    (hr : m.Restacked m₁) (hm : m₁.Holds n (regs ++ callee :: args)) :
    ∃ m', callRegister re a b c m = makeCall re a c callee args m' ∧
      m.Restacked m' ∧ m'.Holds n regs := by
  obtain ⟨m₂, h₂, hr₂, hm₂⟩ := enter_holds re hm (c - 1 : Int) (.call a c)
  refine ⟨m₂, ?_, hr.trans hr₂, hm₂⟩
  rw [callRegister, run_bind, hp, Outcome.andThen_done, run_bind, h₂]
  rfl

theorem callRegister_open (c : Nat) (hm : m.Offers b regs vs) (hab : a < b) (hb : b ≤ regs.length)
    (hs : b < 256) (ha : registersBetween regs a b ++ vs = callee :: args) :
    ∃ m', callRegister re a 0 c m = makeCall re a c callee args m' ∧
      m.Restacked m' ∧ m'.Holds regs.length regs := by
  obtain ⟨m₁, h₁, hr₁, hm₁⟩ := Rearranges.pushCall hab hb hs m hm
  have hl : b - a - 1 + vs.length = args.length := by
    have hl := congrArg List.length ha
    rw [List.length_append, length_registersBetween hb, List.length_cons] at hl
    omega
  rw [List.append_assoc, ha] at hm₁
  exact callRegister_holds re (hl ▸ h₁) hr₁ hm₁

theorem callRegister_fixed (c : Nat) (hm : m.Holds regs.length regs)
    (hb : a + args.length < regs.length)
    (ha : registersBetween regs a (a + args.length + 1) = callee :: args) :
    ∃ m', callRegister re a (args.length + 1) c m = makeCall re a c callee args m' ∧
      m.Restacked m' ∧ m'.Holds regs.length regs := by
  obtain ⟨m₁, h₁, hr₁, hm₁⟩ := Rearranges.pushCall_fixed hb m hm
  rw [ha] at hm₁
  exact callRegister_holds re h₁ hr₁ hm₁

theorem leave_holds {m₁ : Machine} (hr : m.Restacked m₁) (hi : 1 < m.frameCount)
    (hm₁ : m₁.Holds n (regs ++ ws)) : ∃ us, Upvalue.Closes m.upvalues us ∧
      leave regs.length m₁ = .done m.frame.site (m.left us ws) := by
  have hu : m₁.upvalues = m.upvalues := by
    obtain ⟨g, -, rfl⟩ := hr
    rfl
  have hc := hr.control hi
  have hsite : m₁.frame.site = m.frame.site := (congrArg Frame.site hc : m₁.frame.control.site = _)
  have hwanted : m₁.frame.wanted = m.frame.wanted :=
    (congrArg Frame.wanted hc : m₁.frame.control.wanted = _)
  obtain ⟨us, hus, he⟩ := run_leave regs.length m₁
  have ht : m₁.frame.topValues (m₁.frame.top - regs.length) = ws := by
    have hl : regs.length ≤ m₁.frame.top := by
      rw [hm₁.top, List.length_append]
      exact Nat.le_add_right ..
    rw [Frame.topValues_eq, Nat.sub_sub_self hl, hm₁.values, List.drop_left]
  refine ⟨us, hu ▸ hus, ?_⟩
  rw [he, ht, hsite, hwanted, hr.cut, hr.running]
  rfl

theorem returnFrom_gathered (hm : m.Offers b regs vs) (hab : a ≤ b) (hb : b ≤ regs.length)
    (hs : b < 256) : ∃ m₁, returnFrom a 0 m = leave regs.length m₁ ∧ m.Restacked m₁ ∧
      m₁.Holds regs.length (regs ++ (registersBetween regs a b ++ vs)) := by
  obtain ⟨m₁, h₁, hr₁, hm₁⟩ := Rearranges.gather hab hb hs m hm
  have hg := hm₁.registers
  rw [List.append_assoc] at hm₁
  refine ⟨m₁, ?_, hr₁, hm₁⟩
  rw [returnFrom, run_bind, h₁, Outcome.andThen_done, run_bind, run_read, Outcome.andThen_done, hg]

theorem returnFrom_pushed {k : Nat} (hm : m.Holds n regs) (hk : a + k ≤ regs.length) :
    ∃ m₁, returnFrom a (k + 1) m = leave regs.length m₁ ∧ m.Restacked m₁ ∧
      m₁.Holds n (regs ++ registersBetween regs a (a + k)) := by
  have hl : registersBetween regs a (a + k) = (regs.drop a).take k := by
    rw [registersBetween, List.drop_take, Nat.add_sub_cancel_left]
  obtain ⟨m₁, h₁, hr₁, hm₁⟩ := Rearranges.pushValues hk m hm
  refine ⟨m₁, ?_, hr₁, hl ▸ hm₁⟩
  rw [returnFrom, run_bind, run_top, Outcome.andThen_done, run_bind, h₁, Outcome.andThen_done, hm.top]

theorem returnFrom_open (hm : m.Offers b regs vs) (hab : a ≤ b) (hb : b ≤ regs.length)
    (hs : b < 256) : ∃ us, Upvalue.Closes m.upvalues us ∧ returnFrom a 0 m =
      .done m.frame.site (m.left us (registersBetween regs a b ++ vs)) := by
  obtain ⟨m₁, h₁, hr₁, hm₁⟩ := returnFrom_gathered hm hab hb hs
  obtain ⟨us, hu, he⟩ := leave_holds hr₁ hm.inner hm₁
  exact ⟨us, hu, h₁.trans he⟩

theorem returnFrom_fixed {k : Nat} (hm : m.Holds n regs) (hk : a + k ≤ regs.length) :
    ∃ us, Upvalue.Closes m.upvalues us ∧ returnFrom a (k + 1) m =
      .done m.frame.site (m.left us (registersBetween regs a (a + k))) := by
  obtain ⟨m₁, h₁, hr₁, hm₁⟩ := returnFrom_pushed hm hk
  obtain ⟨us, hu, he⟩ := leave_holds hr₁ hm.inner hm₁
  exact ⟨us, hu, h₁.trans he⟩

theorem copyVarargs_open (hm : m.Holds regs.length regs) (a : Nat) :
    ∃ m', copyVarargs a 0 m = .done () m' ∧ m.Restacked m' ∧ m'.Offers a regs m.frame.varargs := by
  obtain ⟨m₁, h₁, hr₁, hm₁⟩ := Rearranges.pushAll m.frame.varargs m hm
  obtain ⟨m₂, h₂, hr₂, hm₂⟩ := Rearranges.storeResults_open m₁ hm₁
  refine ⟨m₂, ?_, hr₁.trans hr₂, hm₂⟩
  have ha : adjust m.frame.varargs ((0 : Nat) - 1 : Int) = m.frame.varargs :=
    adjust_all _ _ (by decide)
  rw [copyVarargs, if_neg (by decide), run_bind, run_readFrame, Outcome.andThen_done, run_bind,
    pushAdjusted, ha, h₁, Outcome.andThen_done, h₂]

def blockOf (i : Instruction) : Exec Nat :=
  if i.c = 0 then fetchExtra .setList else pure (i.c - 1)

theorem fetch_eq (m : Machine) : fetch m = match m.prototype.bind (·.code[m.frame.pc]?) with
    | some i => .done i (m.modifyTop m.running fun f => { f with pc := m.frame.pc + 1 })
    | none => .raised outOfRange m := by
  unfold fetch
  rw [run_bind, run_readFrame, Outcome.andThen_done, run_bind, run_read, Outcome.andThen_done]
  cases hc : m.prototype.bind (·.code[m.frame.pc]?) <;> rfl

theorem frame_fetched {i : Instruction} {m' : Machine} (h : fetch m = .done i m')
    (hi : 1 < m.frameCount) : m'.frame = { m.frame with pc := m.frame.pc + 1 } := by
  rw [fetch_eq] at h
  cases hc : m.prototype.bind (·.code[m.frame.pc]?) with
  | none =>
    rw [hc] at h
    cases h
  | some j =>
    rw [hc] at h
    cases h
    exact frameAt_modifyTop_self hi _

theorem fetch_holds {i : Instruction} {m' : Machine} (h : fetch m = .done i m')
    (hm : m.Holds n vs) : m'.Holds n vs := by
  rw [fetch_eq] at h
  cases hc : m.prototype.bind (·.code[m.frame.pc]?) with
  | none =>
    rw [hc] at h
    cases h
  | some j =>
    rw [hc] at h
    cases h
    exact hm.modifyTop rfl hm.values

theorem blockOf_holds {i : Instruction} {block : Nat} {m' : Machine}
    (h : blockOf i m = .done block m') (hm : m.Holds n vs) : m'.Holds n vs := by
  unfold blockOf at h
  split at h
  · obtain ⟨j, m₁, hf, h⟩ := Outcome.andThen_eq_done h
    cases hj : j.opcode? with
    | none =>
      rw [hj] at h
      cases h
    | some op =>
      rw [hj] at h
      cases op with
      | extraArg =>
        cases h
        exact fetch_holds hf hm
      | _ => cases h
  · cases h
    exact hm

theorem setList_open {i : Instruction} {t : TableId} {block : Nat} {m₁ : Machine}
    (hm : m.Offers b regs vs) (h0 : i.b = 0) (ha : i.a < regs.length) (hb : b ≤ regs.length)
    (hs : b < 256) (ht : regs[i.a]? = some (.table t)) (hblock : blockOf i m = .done block m₁) :
    ∃ m', setList i m = .done () m' ∧ m'.Holds regs.length regs ∧
      (m₁.withItems t (block * blockSize) (registersBetween regs (i.a + 1) b ++ vs)).Restacked m' := by
  have hm₁ : m₁.Holds regs.length (regs ++ vs ++ [markerAt b]) := blockOf_holds hblock hm
  have hreg : Rearranges regs.length (register i.a) (.table t) (regs ++ vs ++ [markerAt b])
      (regs ++ vs ++ [markerAt b]) := .readFrame fun f hf => by
    have hl := f.length_values
    rw [hf, List.length_append, List.length_append] at hl
    rw [Frame.slot_eq f (by omega), hf, List.append_assoc, List.getElem?_append_left (by omega), ht]
    rfl
  have hk : ((Int64.ofNat (b + 1)).toInt - i.a - 2).toNat = b - i.a - 1 := by
    rw [toInt_marker hs]
    omega
  have hitems : Rearranges regs.length
      (readFrame fun f => f.window.slice (i.a + 1) (b - i.a - 1) ++
        f.window.slice regs.length (f.top - regs.length))
      (registersBetween regs (i.a + 1) b ++ vs) (regs ++ vs) (regs ++ vs) := .readFrame fun f hf => by
    have hl : f.top = regs.length + vs.length := by
      rw [← f.length_values, hf, List.length_append]
    rw [f.slice_eq (by omega), f.slice_eq (by omega), hf, hl, Nat.add_sub_cancel_left,
      List.drop_append_of_le_length (by omega), List.take_append_of_le_length (by simp; omega),
      List.drop_left, List.take_length, registersBetween, List.drop_take, Nat.sub_sub]
  obtain ⟨m₂, h₂, hr₂, hm₂⟩ := hreg m₁ hm₁
  obtain ⟨m₃, h₃, hr₃, hm₃⟩ := Rearranges.marker m₂ hm₂
  obtain ⟨m₄, h₄, hr₄, hm₄⟩ := Rearranges.drop [markerAt b] m₃ hm₃
  obtain ⟨m₅, h₅, hr₅, hm₅⟩ := Rearranges.registerCount m₄ hm₄
  obtain ⟨m₆, h₆, hr₆, hm₆⟩ := hitems m₅ hm₅
  have hm₇ : (m₆.withItems t (block * blockSize) (registersBetween regs (i.a + 1) b ++ vs)).Holds
      regs.length (regs ++ vs) := hm₆.congr rfl rfl rfl
  obtain ⟨m', h', hr', hm'⟩ := Rearranges.setTop vs _ hm₇
  refine ⟨m', ?_, hm', ?_⟩
  · have hsplit : ∀ k : Nat → Exec Unit, (if i.c = 0 then fetchExtra .setList >>= k
        else pure (i.c - 1) >>= k) m = (blockOf i >>= k) m := fun k => by
      unfold blockOf
      split <;> rfl
    refine (hsplit _).trans ?_
    rw [run_bind, hblock, Outcome.andThen_done]
    dsimp only
    rw [run_bind, h₂, Outcome.andThen_done]
    dsimp only
    rw [if_pos h0, run_bind, h₃, Outcome.andThen_done, hk, run_bind]
    change (drop [markerAt b].length m₃).andThen _ = _
    rw [h₄, Outcome.andThen_done, run_bind, h₅, Outcome.andThen_done, run_bind, h₆,
      Outcome.andThen_done, run_bind]
    exact h'
  · obtain ⟨g, hg, rfl⟩ := hr₂.trans (hr₃.trans (hr₄.trans (hr₅.trans hr₆)))
    exact .trans ⟨g, hg, rfl⟩ hr'

end Exec
end LuaMachine
