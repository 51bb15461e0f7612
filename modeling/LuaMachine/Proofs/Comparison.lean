import LuaMachine.Access.Operator
import LuaMachine.Proofs.Double.Rounding
import LuaMachine.Proofs.OpenList.Forward
import LuaMachine.Proofs.Table.History

namespace LuaMachine

namespace Number

open Double

variable {a b : Number}

/-- The value of a number as a multiple of the smallest positive float. An infinity has the value that
comes after the finite ones. -/
def units : Number → Int
  | int i => i.toInt * 2 ^ unitPlaces
  | float x => x.signedUnits

/-- An integer and a float that it becomes without being equal to it. -/
def Blurs : Number → Number → Prop
  | int i, float x | float x, int i => (ofInt64 i).rank = x.rank ∧ (int i).units ≠ (float x).units
  | _, _ => False

def compared (c : Comparison) (a b : Number) : Bool :=
  match c with
  | .eq => a.eq b
  | .lt => a.lt b
  | .le => a.le b

/-- Just one of less, equal and greater holds, and less or equal is what its name says. -/
structure Consistent (a b : Number) : Prop where
  one : [a.compared .lt b, a.compared .eq b, b.compared .lt a].count true = 1
  lessEqual : a.compared .le b = true ↔ a.compared .lt b = true ∨ a.compared .eq b = true

theorem Blurs.symm (h : Blurs a b) : Blurs b a := by
  cases a <;> cases b <;> exact h

theorem Blurs.units_ne (h : Blurs a b) : a.units ≠ b.units := by
  cases a with
  | int i =>
    cases b with
    | int j => exact h.elim
    | float y => exact h.2
  | float x =>
    cases b with
    | int j => exact h.2.symm
    | float y => exact h.elim

theorem pow_unitPlaces_pos : (0 : Int) < 2 ^ unitPlaces := by
  have h : 0 < 2 ^ unitPlaces := Nat.two_pow_pos _
  exact_mod_cast h

/-- Numbers are equal if they have the same value. -/
theorem eq_iff_units (ha : (Value.number a).isNaN = false) (hb : (Value.number b).isNaN = false) :
    a.eq b = true ↔ a.units = b.units := by
  cases a with
  | int i =>
    cases b with
    | int j =>
      rw [Number.eq, beq_iff_eq, units, units, Int.mul_eq_mul_right_iff pow_unitPlaces_pos.ne',
        Int64.toInt_inj]
    | float y => rw [Number.eq, beq_iff_eq, toInt64?_eq_some_iff, units, units, eq_comm]
  | float x =>
    cases b with
    | int j => rw [Number.eq, beq_iff_eq, toInt64?_eq_some_iff, units, units]
    | float y =>
      have hx : x.isNaN = false := ha
      have hy : y.isNaN = false := hb
      rw [Number.eq, Double.eq, hx, hy, units, units]
      simpa using ⟨signedUnits_eq_of_rank, rank_eq_of_signedUnits⟩

structure Weighed (a b : Number) (p q : Int) : Prop where
  lt : a.lt b = true ↔ p < q
  gt : b.lt a = true ↔ q < p
  le : a.le b = true ↔ p ≤ q
  ge : b.le a = true ↔ q ≤ p
  below : p < q → a.units < b.units
  above : q < p → b.units < a.units
  level : p = q ↔ a.units = b.units ∨ Blurs a b

theorem Weighed.symm {p q : Int} (h : Weighed a b p q) : Weighed b a q p where
  lt := h.gt
  gt := h.lt
  le := h.ge
  ge := h.le
  below := h.above
  above := h.below
  level := by
    rw [eq_comm, h.level, eq_comm]
    exact or_congr_right ⟨Blurs.symm, Blurs.symm⟩

theorem weighed_int_float (i : Int64) {x : Double} (hx : x.isNaN = false) :
    Weighed (int i) (float x) (ofInt64 i).rank x.rank := by
  have hi : (ofInt64 i).isNaN = false := isNaN_of_isFinite (isFinite_ofInt (natAbs_toInt_lt i))
  refine ⟨Double.lt_iff hi hx, Double.lt_iff hx hi, Double.le_iff hi hx, Double.le_iff hx hi,
    lt_signedUnits_of_lt_rank (natAbs_toInt_lt i),
    signedUnits_lt_of_rank_lt (natAbs_toInt_lt i), fun h => ?_, ?_⟩
  · by_cases hu : (int i).units = (float x).units
    · exact .inl hu
    · exact .inr ⟨h, hu⟩
  · rintro (h | h)
    · exact (rank_eq_ofInt (natAbs_toInt_lt i) h.symm).symm
    · exact h.1

theorem exists_weighed (ha : (Value.number a).isNaN = false)
    (hb : (Value.number b).isNaN = false) : ∃ p q, Weighed a b p q := by
  cases a with
  | int i =>
    cases b with
    | int j =>
      have hmul : ∀ {k l : Int64}, k.toInt < l.toInt → (int k).units < (int l).units :=
        fun h => Int.mul_lt_mul_of_pos_right h pow_unitPlaces_pos
      refine ⟨i.toInt, j.toInt, ?_, ?_, ?_, ?_, hmul, hmul, ?_⟩
      · exact decide_eq_true_iff.trans Int64.lt_iff_toInt_lt
      · exact decide_eq_true_iff.trans Int64.lt_iff_toInt_lt
      · exact decide_eq_true_iff.trans Int64.le_iff_toInt_le
      · exact decide_eq_true_iff.trans Int64.le_iff_toInt_le
      · rw [units, units, Int.mul_eq_mul_right_iff pow_unitPlaces_pos.ne']
        exact (or_iff_left id).symm
    | float y => exact ⟨_, _, weighed_int_float i hb⟩
  | float x =>
    cases b with
    | int j => exact ⟨_, _, (weighed_int_float j ha).symm⟩
    | float y =>
      have hx : x.isNaN = false := ha
      have hy : y.isNaN = false := hb
      exact ⟨x.rank, y.rank, Double.lt_iff hx hy, Double.lt_iff hy hx, Double.le_iff hx hy,
        Double.le_iff hy hx, signedUnits_lt, signedUnits_lt,
        fun h => .inl (signedUnits_eq_of_rank h),
        fun h => rank_eq_of_signedUnits (h.resolve_right id)⟩

theorem Weighed.consistent {p q : Int} (h : Weighed a b p q)
    (he : a.eq b = true ↔ a.units = b.units) (hb : ¬Blurs a b) : Consistent a b := by
  have hq : a.eq b = true ↔ p = q := he.trans ((or_iff_left hb).symm.trans h.level.symm)
  have hn : ∀ {c : Bool} {r : Prop}, (c = true ↔ r) → ¬r → c = false := fun hc hr =>
    Bool.eq_false_iff.mpr (mt hc.mp hr)
  constructor
  · rw [compared, compared, compared]
    rcases Int.lt_trichotomy p q with hl | rfl | hl
    · rw [h.lt.mpr hl, hn hq hl.ne, hn h.gt hl.asymm]
      rfl
    · rw [hn h.lt (Int.lt_irrefl p), hq.mpr rfl, hn h.gt (Int.lt_irrefl p)]
      rfl
    · rw [hn h.lt hl.asymm, hn hq hl.ne', h.gt.mpr hl]
      rfl
  · rw [compared, compared, compared, h.le, h.lt, hq]
    exact Int.le_iff_lt_or_eq

end Number

def Comparison.opcode : Comparison → Opcode
  | .eq => .eq
  | .lt => .lt
  | .le => .le

namespace Exec

structure Compares (a b : Number) : Prop where
  values : ∀ re c m, compare re c (.number a) (.number b) m = .done (a.compared c b) m
  positions : ∀ {re c m i j}, m.isValid i = true → valueAt i m = .done (.number a) m →
    m.isValid j = true → valueAt j m = .done (.number b) m →
    compareAt re i j c m = .done (a.compared c b) m
  operands : ∀ {re m m₁ i} {c : Comparison}, fetch m = .done i m₁ → i.opcode? = some c.opcode →
    operand i.b m₁ = .done (.number a) m₁ → operand i.c m₁ = .done (.number b) m₁ →
    execute re m = (do skipUnless (a.compared c b) (i.a != 0); return none : Exec _) m₁

theorem compare_numbers (re : Reentry) (c : Comparison) (a b : Number) (m : Machine) :
    compare re c (.number a) (.number b) m = .done (a.compared c b) m := by
  cases c <;> rfl

theorem compares (a b : Number) : Compares a b where
  values re c m := compare_numbers re c a b m
  positions {re c m i j} hi ha hj hb := by
    have hv : ∀ {k}, m.isValid k = true → isValid k m = .done true m := fun h => by
      rw [isValid, run_read, h]
    simp only [compareAt, run_bind, hv hi, hv hj, Outcome.andThen_done, Bool.and_self, if_true, ha,
      hb, compare_numbers]
  operands {re m m₁ i c} hf ho ha hb := by
    have hc : plainInstruction re c.opcode i = compareInstruction re c i := by cases c <;> rfl
    rw [execute_plain hf ho (by cases c <;> decide) hc, compareInstruction]
    simp only [run_bind, ha, hb, Outcome.andThen_done, compare_numbers]

end Exec

namespace Number

structure Ordered (a b : Number) : Prop where
  compares : Exec.Compares a b
  equal : a.compared .eq b = true ↔ a.units = b.units
  less : a.compared .lt b = true → a.units < b.units
  consistent : ¬Blurs a b → Consistent a b
  blurred : Blurs a b → a.compared .eq b = false ∧ a.compared .lt b = false ∧
    b.compared .lt a = false ∧ a.compared .le b = true ∧ b.compared .le a = true

/-- The comparisons of numbers agree, except where an integer is rounded. -/
theorem ordered {a b : Number} (ha : (Value.number a).isNaN = false)
    (hb : (Value.number b).isNaN = false) : Ordered a b := by
  obtain ⟨p, q, h⟩ := exists_weighed ha hb
  have he := eq_iff_units ha hb
  refine ⟨Exec.compares a b, he, fun hl => h.below (h.lt.mp hl), h.consistent he, fun hr => ?_⟩
  have hpq : p = q := h.level.mpr (.inr hr)
  refine ⟨?_, ?_, ?_, h.le.mpr hpq.le, h.ge.mpr hpq.ge⟩
  · exact Bool.eq_false_iff.mpr (mt he.mp hr.units_ne)
  · exact Bool.eq_false_iff.mpr (mt h.lt.mp hpq.not_lt)
  · exact Bool.eq_false_iff.mpr (mt h.gt.mp hpq.not_gt)

/-- The least integer that is not a float, and the float after it. -/
theorem ordered_large :
    Ordered (.int 9007199254740993) (.float ⟨0x4340000000000001⟩) ∧
      Consistent (.int 9007199254740993) (.float ⟨0x4340000000000001⟩) :=
  have h := ordered (a := .int 9007199254740993) (b := .float ⟨0x4340000000000001⟩) rfl (by decide)
  ⟨h, h.consistent fun hb => absurd hb.1 (by decide)⟩

/-- The least integer that is not a float, and the float before it. -/
theorem not_consistent_rounded :
    (∀ re c m, Exec.compare re c (.int 9007199254740993) (.float ⟨0x4340000000000000⟩) m =
      .done (decide (c = .le)) m) ∧
    (∀ re c m, Exec.compare re c (.float ⟨0x4340000000000000⟩) (.int 9007199254740993) m =
      .done (decide (c = .le)) m) ∧
    ¬Consistent (.int 9007199254740993) (.float ⟨0x4340000000000000⟩) := by
  have hl : ∀ c, compared c (.int 9007199254740993) (.float ⟨0x4340000000000000⟩) =
      decide (c = .le) := by
    intro c
    cases c <;> decide
  have hr : ∀ c, compared c (.float ⟨0x4340000000000000⟩) (.int 9007199254740993) =
      decide (c = .le) := by
    intro c
    cases c <;> decide
  refine ⟨fun re c m => ?_, fun re c m => ?_, fun h => absurd h.one (by decide)⟩
  · rw [← hl]
    exact Exec.compare_numbers ..
  · rw [← hr]
    exact Exec.compare_numbers ..

end Number

end LuaMachine
