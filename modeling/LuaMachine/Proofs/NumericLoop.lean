import LuaMachine.Proofs.Integer
import LuaMachine.Proofs.OpenList.Protocol

namespace LuaMachine

open Machine Exec

namespace NumericLoop

variable {initial limit step : Int64} {z : Int} {k : Nat}

section Values

/-- The value of a turn, counted from 0, whether or not it fits 64 bits. -/
def value (initial step : Int64) (k : Nat) : Int := initial.toInt + k * step.toInt

def Within (limit step : Int64) (z : Int) : Prop :=
  if 0 < step.toInt then z ≤ limit.toInt else limit.toInt ≤ z

instance : Decidable (Within limit step z) := by
  unfold Within
  infer_instance

def turns (initial limit step : Int64) : Nat :=
  if Within limit step initial.toInt then
    (limit.toInt - initial.toInt).natAbs / step.toInt.natAbs + 1
  else 0

def Fits (z : Int) : Prop := -2 ^ 63 ≤ z ∧ z < 2 ^ 63

theorem toInt_ofInt (h : Fits z) : (Int64.ofInt z).toInt = z :=
  Int64.toInt_ofInt_of_le h.1 h.2

instance : Decidable (Fits z) := by
  unfold Fits
  infer_instance

theorem fits_toInt (i : Int64) : Fits i.toInt := ⟨i.le_toInt, i.toInt_lt⟩

theorem value_zero : value initial step 0 = initial.toInt := by
  rw [value, Int.natCast_zero, Int.zero_mul, Int.add_zero]

theorem value_succ : value initial step (k + 1) = value initial step k + step.toInt := by
  rw [value, value, Int.natCast_succ, Int.add_mul, Int.one_mul, Int.add_assoc]

theorem within_value_iff (hs : step ≠ 0) :
    Within limit step (value initial step k) ↔ k < turns initial limit step := by
  have hs : step.toInt ≠ 0 := fun h => hs (Int64.toInt_inj.mp h)
  have hd : k ≤ (limit.toInt - initial.toInt).natAbs / step.toInt.natAbs ↔
      k * step.toInt.natAbs ≤ (limit.toInt - initial.toInt).natAbs :=
    Nat.le_div_iff_mul_le (by omega)
  unfold turns
  by_cases hp : 0 < step.toInt
  · have hk : (k : Int) * step.toInt = (k * step.toInt.natAbs : Nat) := by
      rw [Int.natCast_mul, Int.natAbs_of_nonneg (Int.le_of_lt hp)]
    simp only [Within, if_pos hp, value, hk]
    split <;> omega
  · have hk : (k : Int) * step.toInt = -(k * step.toInt.natAbs : Nat) := by
      rw [Int.natCast_mul, Int.ofNat_natAbs_of_nonpos (by omega), Int.mul_neg, Int.neg_neg]
    simp only [Within, if_neg hp, value, hk]
    split <;> omega

theorem fits_value (hs : step ≠ 0) (hk : k < turns initial limit step) :
    Fits (value initial step k) := by
  have h := (within_value_iff hs).mpr hk
  have hi := fits_toInt initial
  have hl := fits_toInt limit
  unfold Within at h
  unfold Fits value at *
  split at h
  · have : 0 ≤ (k : Int) * step.toInt := Int.mul_nonneg (by omega) (by omega)
    omega
  · have : (k : Int) * step.toInt ≤ 0 := Int.mul_nonpos_of_nonneg_of_nonpos (by omega) (by omega)
    omega

theorem ofInt_add_word (z c : Int) : Int64.ofInt (z + c * 2 ^ 64) = Int64.ofInt z := by
  rw [Int64.ofInt_add, Int64.ofInt_mul, show Int64.ofInt (2 ^ 64) = 0 from rfl, Int64.mul_zero,
    Int64.add_zero]

theorem toInt_wrapped {w : Int} (c : Int) (hz : z = w + c * 2 ^ 64) (hw : Fits w) :
    (Int64.ofInt z).toInt = w := by
  rw [hz, ofInt_add_word, toInt_ofInt hw]

/-- The first value past the limit wraps around to one before it, if it does not fit. -/
theorem within_wrapped (hs : step ≠ 0)
    (hf : ¬Fits (value initial step (turns initial limit step))) :
    Within limit step (Int64.ofInt (value initial step (turns initial limit step))).toInt := by
  have hs' : step.toInt ≠ 0 := fun h => hs (Int64.toInt_inj.mp h)
  have hpast : ¬Within limit step (value initial step (turns initial limit step)) :=
    fun h => Nat.lt_irrefl _ ((within_value_iff hs).mp h)
  cases hn : turns initial limit step with
  | zero => exact absurd (hn ▸ value_zero ▸ fits_toInt initial) hf
  | succ k =>
    have hlt : k < turns initial limit step := by omega
    have hw := (within_value_iff hs).mpr hlt
    have hk := fits_value hs hlt
    have hl := fits_toInt limit
    have hstep := fits_toInt step
    rw [hn, value_succ] at hf hpast
    rw [value_succ]
    generalize value initial step k = v at *
    unfold Within at hw hpast ⊢
    unfold Fits at hf hk hl hstep
    split at hw
    · rw [if_pos ‹_›] at hpast
      rw [if_pos ‹_›, toInt_wrapped (w := v + step.toInt - 2 ^ 64) 1 (by omega)
        ⟨by omega, by omega⟩]
      omega
    · rw [if_neg ‹_›] at hpast
      rw [if_neg ‹_›, toInt_wrapped (w := v + step.toInt + 2 ^ 64) (-1) (by omega)
        ⟨by omega, by omega⟩]
      omega

end Values

end NumericLoop

namespace Frame

structure Controls (f : Frame) (a : Nat) (counter limit step : Int64) : Prop where
  counter : f.slot a = .int counter
  limit : f.slot (a + 1) = .int limit
  step : f.slot (a + 2) = .int step

def jumped (f : Frame) (offset : Int) : Frame := { f with pc := (f.pc + offset).toNat }

def turned (f : Frame) (a : Nat) (offset : Int) (v : Int64) : Frame :=
  ((f.jumped offset).setSlot a (.int v)).setSlot (a + 3) (.int v)

def prepared (f : Frame) (a : Nat) (offset : Int) (initial limit step : Int64) : Frame :=
  (((f.setSlot a (.int (initial - step))).setSlot (a + 1) (.int limit)).setSlot (a + 2)
    (.int step)).jumped offset

theorem controls_prepared (f : Frame) (a : Nat) (offset : Int) (initial limit step : Int64) :
    (f.prepared a offset initial limit step).Controls a (initial - step) limit step := by
  have hs : ∀ j, (f.prepared a offset initial limit step).slot j = (((f.setSlot a
      (.int (initial - step))).setSlot (a + 1) (.int limit)).setSlot (a + 2) (.int step)).slot j :=
    fun _ => rfl
  exact ⟨by simp [hs, slot_setSlot], by simp [hs, slot_setSlot], by simp [hs, slot_setSlot]⟩

theorem slot_turned (f : Frame) (a : Nat) (offset : Int) (v : Int64) (j : Nat) :
    (f.turned a offset v).slot j =
      if a + 3 = j then .int v else if a = j then .int v else f.slot j := by
  rw [turned, slot_setSlot, slot_setSlot]
  rfl

theorem Controls.turned {f : Frame} {a : Nat} {counter limit step : Int64}
    (h : f.Controls a counter limit step) (offset : Int) (v : Int64) :
    (f.turned a offset v).Controls a v limit step :=
  ⟨by simp [slot_turned], by simp [slot_turned, h.limit], by simp [slot_turned, h.step]⟩

end Frame

namespace Machine

/-- A bytecode function is running and comes to an instruction. -/
structure Faces (m : Machine) (i : Instruction) : Prop where
  inner : 1 < m.frameCount
  code : m.prototype.bind (·.code[m.frame.pc]?) = some i

def passed (m : Machine) : Machine :=
  m.modifyTop m.running fun f => { f with pc := m.frame.pc + 1 }

def turned (m : Machine) (loop : Instruction) (v : Int64) : Machine :=
  m.passed.modifyTop m.running (·.turned loop.a loop.sbx v)

def KeepsControl (a : Nat) (m m' : Machine) : Prop :=
  ∀ j, a ≤ j → j ≤ a + 2 → m'.frame.slot j = m.frame.slot j

variable {m : Machine} {i : Instruction}

theorem Faces.fetch (h : m.Faces i) : fetch m = .done i m.passed := by
  rw [fetch_eq, h.code]
  rfl

theorem Faces.frame_passed (h : m.Faces i) :
    m.passed.frame = { m.frame with pc := m.frame.pc + 1 } :=
  frameAt_modifyTop_self h.inner _

theorem Faces.inner_passed (h : m.Faces i) : 1 < m.passed.frameCount := by
  have hs : m.passed.frameCount = m.frameCount := m.size_modifyTop ..
  exact hs ▸ h.inner

theorem Faces.frame_modifyTop (h : m.Faces i) (g : Frame → Frame) :
    (m.passed.modifyTop m.running g).frame = g { m.frame with pc := m.frame.pc + 1 } := by
  rw [← h.frame_passed]
  exact frameAt_modifyTop_self h.inner_passed g

end Machine

namespace Exec

variable {re : Reentry} {m m₀ : Machine} {loop prep : Instruction} {a : Nat}
  {counter initial limit step : Int64}

theorem advanceLoop_ints (hc : m.frame.Controls a counter limit step) (offset : Int) :
    advanceLoop a offset m = .done ()
      (if NumericLoop.Within limit step (counter + step).toInt then
        m.modifyTop m.running (·.turned a offset (counter + step))
      else m) := by
  have hgo : (if 0 < step then counter + step ≤ limit else limit ≤ counter + step) ↔
      NumericLoop.Within limit step (counter + step).toInt := by
    simp only [NumericLoop.Within, Int64.lt_iff_toInt_lt, Int64.le_iff_toInt_le, Int64.toInt_zero]
  simp only [advanceLoop, register, run_bind, run_readFrame, Outcome.andThen_done, hc.counter,
    hc.limit, hc.step, Value.int, NumericLoop.advance, hgo]
  by_cases hw : NumericLoop.Within limit step (counter + step).toInt
  · simp only [if_pos hw, jump, setRegister, run_bind, run_modifyFrame, Outcome.andThen_done]
    change Outcome.done () (((m.modifyTop m.running _).modifyTop m.running _).modifyTop
      m.running _) = _
    rw [modifyTop_modifyTop, modifyTop_modifyTop]
    rfl
  · simp only [if_neg hw]
    rfl

theorem prepareLoop_ints (hc : m.frame.Controls a initial limit step) (offset : Int) :
    prepareLoop a offset m = .done ()
      (m.modifyTop m.running (·.prepared a offset initial limit step)) := by
  have hp : NumericLoop.prepare (.int initial) (.int limit) (.int step) =
      .ok { counter := .int (initial - step), limit := .int limit, step := .int step } := rfl
  simp only [prepareLoop, register, run_bind, run_readFrame, Outcome.andThen_done, hc.counter,
    hc.limit, hc.step, hp, jump, setRegister, run_modifyFrame]
  change Outcome.done () ((((m.modifyTop m.running _).modifyTop m.running _).modifyTop m.running
    _).modifyTop m.running _) = _
  rw [modifyTop_modifyTop, modifyTop_modifyTop, modifyTop_modifyTop]
  rfl

theorem Faces.controls_passed {i : Instruction} (hm : m.Faces i)
    (hc : m.frame.Controls a counter limit step) :
    m.passed.frame.Controls a counter limit step := by
  rw [hm.frame_passed]
  exact ⟨hc.counter, hc.limit, hc.step⟩

theorem execute_forLoop (re : Reentry) (hm : m.Faces loop) (ho : loop.opcode? = some .forLoop)
    (hc : m.frame.Controls loop.a counter limit step) : execute re m = .done none
      (if NumericLoop.Within limit step (counter + step).toInt then m.turned loop (counter + step)
      else m.passed) := by
  rw [execute_plain (x := advanceLoop loop.a loop.sbx) hm.fetch ho (by decide) rfl, run_bind,
    advanceLoop_ints (Faces.controls_passed hm hc)]
  rfl

theorem execute_forPrep (re : Reentry) (hm : m.Faces prep) (ho : prep.opcode? = some .forPrep)
    (hc : m.frame.Controls prep.a initial limit step) : execute re m = .done none
      (m.passed.modifyTop m.running (·.prepared prep.a prep.sbx initial limit step)) := by
  rw [execute_plain (x := prepareLoop prep.a prep.sbx) hm.fetch ho (by decide) rfl, run_bind,
    prepareLoop_ints (Faces.controls_passed hm hc)]
  rfl

/-- A loop that has begun some turns, with these values, and comes to its instruction again. What
the body does is left open, except that it comes back with the control registers as they were. -/
inductive Turns (re : Reentry) (m₀ : Machine) (loop : Instruction) :
    List Value → Machine → Prop where
  | prepared {m : Machine} : execute re m₀ = .done none m → m.Faces loop → Turns re m₀ loop [] m
  | turn {vs : List Value} {m m' m'' : Machine} : Turns re m₀ loop vs m →
      execute re m = .done none m' → m' ≠ m.passed → m'.KeepsControl loop.a m'' → m''.Faces loop →
      Turns re m₀ loop (vs ++ [m'.frame.slot (loop.a + 3)]) m''

structure StartsLoop (m₀ : Machine) (prep loop : Instruction) (initial limit step : Int64) :
    Prop where
  faces : m₀.Faces prep
  prepares : prep.opcode? = some .forPrep
  loops : loop.opcode? = some .forLoop
  operand : loop.a = prep.a
  controls : m₀.frame.Controls prep.a initial limit step
  moves : step ≠ 0

open NumericLoop in
structure CountsTurns (re : Reentry) (m₀ : Machine) (prep loop : Instruction)
    (initial limit step : Int64) : Prop where
  count : ∀ k, Within limit step (value initial step k) ↔ k < turns initial limit step
  fits : ∀ k < turns initial limit step, Fits (value initial step k)
  prepared : ∃ m, execute re m₀ = .done none m ∧
    m.frame.pc = ((m₀.frame.pc + 1 : Nat) + prep.sbx).toNat
  values : ∀ {vs m}, Turns re m₀ loop vs m →
    vs = (List.range vs.length).map fun k => .int (Int64.ofInt (value initial step k))
  begins : ∀ {vs m}, Turns re m₀ loop vs m → vs.length < turns initial limit step →
    execute re m = .done none (m.turned loop (Int64.ofInt (value initial step vs.length)))
  ends : ∀ {vs m}, Turns re m₀ loop vs m → Fits (value initial step (turns initial limit step)) →
    vs.length ≤ turns initial limit step ∧
      (vs.length = turns initial limit step → execute re m = .done none m.passed)
  skips : ∀ {vs m}, Turns re m₀ loop vs m → ¬Within limit step initial.toInt →
    vs = [] ∧ execute re m = .done none m.passed
  /-- A value that does not fit is wrapped around and begins another turn. -/
  wraps : ∀ {vs m}, Turns re m₀ loop vs m → ¬Fits (value initial step (turns initial limit step)) →
    vs.length = turns initial limit step →
    execute re m = .done none (m.turned loop (Int64.ofInt (value initial step vs.length)))

open NumericLoop

variable {vs : List Value} {m' m'' : Machine}

def counterAt (initial step : Int64) (k : Nat) : Int64 :=
  Int64.ofInt (value initial step k) - step

theorem counterAt_add (initial step : Int64) (k : Nat) :
    counterAt initial step k + step = Int64.ofInt (value initial step k) := by
  rw [counterAt, Int64.sub_add_cancel]

theorem counterAt_zero (initial step : Int64) : counterAt initial step 0 = initial - step := by
  rw [counterAt, value_zero, Int64.ofInt_toInt]

theorem counterAt_succ (initial step : Int64) (k : Nat) :
    counterAt initial step (k + 1) = Int64.ofInt (value initial step k) := by
  rw [counterAt, value_succ, Int64.ofInt_add, Int64.ofInt_toInt, Int64.add_sub_cancel]

theorem controls_prepared (h : StartsLoop m₀ prep loop initial limit step)
    (he : execute re m₀ = .done none m) :
    m.frame.Controls loop.a (counterAt initial step 0) limit step := by
  rw [execute_forPrep re h.faces h.prepares h.controls] at he
  cases he
  rw [h.faces.frame_modifyTop, h.operand, counterAt_zero]
  exact Frame.controls_prepared ..

theorem controls_turned {i : Instruction} (hm : m.Faces i) {v : Int64}
    (hc : m.frame.Controls loop.a counter limit step) :
    (m.turned loop v).frame.Controls loop.a v limit step ∧
      (m.turned loop v).frame.slot (loop.a + 3) = .int v := by
  rw [Machine.turned, hm.frame_modifyTop, ← hm.frame_passed]
  exact ⟨(Faces.controls_passed hm hc).turned loop.sbx v, by rw [Frame.slot_turned, if_pos rfl]⟩

theorem controls_kept (hk : m'.KeepsControl a m'') (hc : m'.frame.Controls a counter limit step) :
    m''.frame.Controls a counter limit step where
  counter := (hk a (by omega) (by omega)).trans hc.counter
  limit := (hk (a + 1) (by omega) (by omega)).trans hc.limit
  step := (hk (a + 2) (by omega) (by omega)).trans hc.step

/-- What holds whenever the loop comes to its instruction. -/
theorem Turns.controls (h : StartsLoop m₀ prep loop initial limit step)
    (ht : Turns re m₀ loop vs m) : m.Faces loop ∧
      m.frame.Controls loop.a (counterAt initial step vs.length) limit step ∧
      vs = (List.range vs.length).map fun k => .int (Int64.ofInt (value initial step k)) := by
  induction ht with
  | prepared he hm => exact ⟨hm, controls_prepared h he, rfl⟩
  | @turn vs m m' m'' _ he hn hk hm'' ih =>
    obtain ⟨hm, hc, hvs⟩ := ih
    rw [execute_forLoop re hm h.loops hc] at he
    have ht : m' = m.turned loop (Int64.ofInt (value initial step vs.length)) := by
      rw [counterAt_add] at he
      split at he
      · exact (Outcome.done.inj he).2.symm
      · exact absurd (Outcome.done.inj he).2.symm hn
    obtain ⟨hc', hv⟩ := controls_turned (v := Int64.ofInt (value initial step vs.length)) hm hc
    rw [← ht] at hc' hv
    rw [List.length_append, List.length_singleton, counterAt_succ, hv]
    refine ⟨hm'', controls_kept hk hc', ?_⟩
    rw [List.range_succ, List.map_append, ← hvs]
    rfl

theorem Turns.execute (h : StartsLoop m₀ prep loop initial limit step)
    (ht : Turns re m₀ loop vs m) : execute re m = .done none
      (if Within limit step (Int64.ofInt (value initial step vs.length)).toInt then
        m.turned loop (Int64.ofInt (value initial step vs.length))
      else m.passed) := by
  obtain ⟨hm, hc, -⟩ := ht.controls h
  rw [execute_forLoop re hm h.loops hc, counterAt_add]

theorem Turns.passes (h : StartsLoop m₀ prep loop initial limit step)
    (ht : Turns re m₀ loop vs m) (hf : Fits (value initial step vs.length))
    (hw : ¬vs.length < turns initial limit step) : Exec.execute re m = .done none m.passed := by
  rw [ht.execute h, toInt_ofInt hf, if_neg fun h' => hw ((within_value_iff h.moves).mp h')]

theorem Turns.length_le (h : StartsLoop m₀ prep loop initial limit step)
    (ht : Turns re m₀ loop vs m) (hf : Fits (value initial step (turns initial limit step))) :
    vs.length ≤ turns initial limit step := by
  induction ht with
  | prepared => exact Nat.zero_le _
  | @turn vs m m' m'' ht he hn _ _ ih =>
    rw [List.length_append, List.length_singleton]
    rcases Nat.lt_or_eq_of_le ih with hl | hl
    · exact hl
    · have hp := ht.passes h (hl ▸ hf) (by omega)
      exact absurd (Outcome.done.inj (he.symm.trans hp)).2 hn

theorem Turns.again (h : StartsLoop m₀ prep loop initial limit step) (ht : Turns re m₀ loop vs m)
    {v : Int64} (hv : Int64.ofInt (value initial step vs.length) = v)
    (hw : Within limit step v.toInt) (hm : (m.turned loop v).Faces loop) :
    Turns re m₀ loop (vs ++ [.int v]) (m.turned loop v) := by
  obtain ⟨hm', hc, -⟩ := ht.controls h
  obtain ⟨hc', hs⟩ := controls_turned (v := v) hm' hc
  have he := ht.execute h
  rw [hv, if_pos hw] at he
  have hn : m.turned loop v ≠ m.passed := by
    intro hp
    have hk := hc'.counter
    rw [hp, (Faces.controls_passed hm' hc).counter, counterAt, hv] at hk
    have hz : v - step = v := Number.int.inj (Value.number.inj hk)
    exact h.moves (Int64.left_eq_add.mp (Int64.sub_eq_iff_eq_add.mp hz))
  exact hs ▸ .turn ht he hn (fun _ _ _ => rfl) hm

/-- A loop of integers runs its body for the values up to the limit, and ends with the first one
past it that fits. -/
theorem StartsLoop.countsTurns (h : StartsLoop m₀ prep loop initial limit step) (re : Reentry) :
    CountsTurns re m₀ prep loop initial limit step where
  count _ := within_value_iff h.moves
  fits _ hk := fits_value h.moves hk
  prepared := by
    refine ⟨_, execute_forPrep re h.faces h.prepares h.controls, ?_⟩
    rw [h.faces.frame_modifyTop]
    rfl
  values ht := (ht.controls h).2.2
  begins ht hk := by
    rw [ht.execute h, toInt_ofInt (fits_value h.moves hk),
      if_pos ((within_value_iff h.moves).mpr hk)]
  ends ht hf := ⟨ht.length_le h hf, fun hl => ht.passes h (hl ▸ hf) (by omega)⟩
  skips {vs m} ht hw := by
    have hz : turns initial limit step = 0 := if_neg hw
    have hf : Fits (value initial step 0) := value_zero ▸ fits_toInt initial
    obtain rfl : vs = [] := List.length_eq_zero_iff.mp
      (Nat.le_zero.mp (hz ▸ ht.length_le h (hz ▸ hf)))
    exact ⟨rfl, ht.passes h hf (by omega)⟩
  wraps ht hf hl := by
    rw [ht.execute h, hl, if_pos (within_wrapped h.moves hf)]

end Exec

def Machine.looping (initial limit step : Int64) : Machine :=
  { Machine.new {} with
    functions := #[{ body := .bytecode { registers := 4, code := #[
      .ofAsBx .forPrep 0 0, .ofAsBx .forLoop 0 (-1)] } }]
    threads := #[{ isMain := true, parked := false, phase := .running, frames := #[{}, {
      window := #[.int initial, .int limit, .int step, .nil], top := 4, function := some ⟨0⟩ }] }] }

namespace Exec

open NumericLoop

theorem startsLoop_looping {initial limit step : Int64} (h : step ≠ 0) :
    StartsLoop (looping initial limit step) (.ofAsBx .forPrep 0 0) (.ofAsBx .forLoop 0 (-1)) initial
      limit step where
  faces := ⟨Nat.lt_succ_self 1, rfl⟩
  prepares := by decide
  loops := by decide
  operand := rfl
  controls := ⟨rfl, rfl, rfl⟩
  moves := h

/-- Three values downwards. -/
theorem countsTurns_descending :
    StartsLoop (looping 3 (-4) (-3)) (.ofAsBx .forPrep 0 0) (.ofAsBx .forLoop 0 (-1)) 3 (-4) (-3) ∧
    CountsTurns (({} : Host).reentry 1) (looping 3 (-4) (-3)) (.ofAsBx .forPrep 0 0)
      (.ofAsBx .forLoop 0 (-1)) 3 (-4) (-3) ∧
    (List.range (turns 3 (-4) (-3))).map (value 3 (-3)) = [3, 0, -3] ∧
    Fits (value 3 (-3) (turns 3 (-4) (-3))) :=
  have h := startsLoop_looping (by decide)
  ⟨h, h.countsTurns _, by decide, by decide⟩

/-- A loop up to the greatest integer goes on from the least one. -/
theorem turns_past_greatest : turns Int64.maxValue Int64.maxValue 1 = 1 ∧
    ∃ m, Turns (({} : Host).reentry 1) (looping Int64.maxValue Int64.maxValue 1)
      (.ofAsBx .forLoop 0 (-1)) [.int Int64.maxValue, .int Int64.minValue] m := by
  have hs : StartsLoop (looping Int64.maxValue Int64.maxValue 1) _ _ Int64.maxValue
      Int64.maxValue 1 := startsLoop_looping (by decide)
  have h₀ : Turns (({} : Host).reentry 1) (looping Int64.maxValue Int64.maxValue 1)
      (.ofAsBx .forLoop 0 (-1)) [] _ :=
    .prepared (execute_forPrep _ hs.faces hs.prepares hs.controls) ⟨Nat.lt_succ_self 1, rfl⟩
  have h₁ := h₀.again (v := Int64.maxValue) hs (by decide) (by decide) ⟨Nat.lt_succ_self 1, rfl⟩
  exact ⟨by decide, _, h₁.again hs (by decide) (by decide) ⟨Nat.lt_succ_self 1, rfl⟩⟩

end Exec
end LuaMachine
