import LuaMachine.Double
import LuaMachine.Proofs.Integer
import Mathlib.Data.Nat.Bitwise
import Mathlib.Tactic.Ring

namespace LuaMachine.Double

variable {x y : Double}

theorem magnitude_eq (x : Double) : x.magnitude = x.bits.toNat % 2 ^ 63 := by
  unfold magnitude
  rw [UInt64.toNat_and]
  exact Nat.and_two_pow_sub_one_eq_mod x.bits.toNat 63

theorem negative_eq (x : Double) : x.negative = decide (2 ^ 63 ≤ x.bits.toNat) := by
  have hb : x.bits.toNat < 2 ^ 64 := x.bits.toNat_lt
  have hs : (x.bits &&& signBit).toNat = (x.bits.toNat.testBit 63).toNat * 2 ^ 63 := by
    rw [UInt64.toNat_and]
    exact Nat.and_two_pow x.bits.toNat 63
  have ht : x.bits.toNat.testBit 63 = decide (2 ^ 63 ≤ x.bits.toNat) := by
    rw [Nat.testBit_eq_decide_div_mod_eq, decide_eq_decide]
    omega
  have hz : x.negative = ((x.bits &&& signBit).toNat != 0) := by
    unfold negative
    rw [Bool.eq_iff_iff, bne_iff_ne, bne_iff_ne, ne_eq, ne_eq, ← UInt64.toNat_inj]
    rfl
  rw [hz, hs, ht]
  cases decide (2 ^ 63 ≤ x.bits.toNat) <;> rfl

theorem eq_of_magnitude (hm : x.magnitude = y.magnitude) (hn : x.negative = y.negative) : x = y := by
  rw [magnitude_eq, magnitude_eq] at hm
  rw [negative_eq, negative_eq, decide_eq_decide] at hn
  have hx : x.bits.toNat < 2 ^ 64 := x.bits.toNat_lt
  have hy : y.bits.toNat < 2 ^ 64 := y.bits.toNat_lt
  have h : x.bits = y.bits := UInt64.toNat_inj.mp (by omega)
  cases x
  cases y
  exact congrArg _ h

theorem rank_eq_iff : x.rank = y.rank ↔
    x.magnitude = y.magnitude ∧ (x.magnitude = 0 ∨ x.negative = y.negative) := by
  unfold rank
  cases hx : x.negative <;> cases hy : y.negative <;> simp <;> omega

def unitPlaces : Nat := 1074

/-- The magnitude of a finite number as a multiple of the smallest positive one. -/
def units (x : Double) : Nat := x.significand * 2 ^ (x.exponent + unitPlaces).toNat

def signedUnits (x : Double) : Int := if x.negative then -x.units else x.units

theorem units_small (h : x.magnitude < hiddenBit) : x.units = x.magnitude := by
  have hd : x.magnitude / hiddenBit = 0 := Nat.div_eq_of_lt h
  simp [units, significand, exponent, unitPlaces, h, hd]

theorem units_bounds (h : hiddenBit ≤ x.magnitude) :
    x.units = (x.magnitude % hiddenBit + hiddenBit) * 2 ^ (x.magnitude / hiddenBit - 1) := by
  have hd : 1 ≤ x.magnitude / hiddenBit := (Nat.one_le_div_iff (by decide)).mpr h
  have he : (x.exponent + unitPlaces).toNat = x.magnitude / hiddenBit - 1 := by
    unfold exponent unitPlaces
    rw [if_neg (by omega)]
    omega
  rw [units, he, significand, if_neg (by omega)]

theorem units_lt (h : x.magnitude < y.magnitude) : x.units < y.units := by
  by_cases hy : y.magnitude < hiddenBit
  · rwa [units_small hy, units_small (h.trans hy)]
  · have hb : 0 < hiddenBit := by decide
    have hyd : 1 ≤ y.magnitude / hiddenBit := (Nat.one_le_div_iff hb).mpr (by omega)
    rw [units_bounds (x := y) (by omega)]
    have hlow : hiddenBit * 2 ^ (y.magnitude / hiddenBit - 1) ≤
        (y.magnitude % hiddenBit + hiddenBit) * 2 ^ (y.magnitude / hiddenBit - 1) :=
      Nat.mul_le_mul_right _ (Nat.le_add_left ..)
    by_cases hx : x.magnitude < hiddenBit
    · rw [units_small hx]
      have : hiddenBit * 1 ≤ hiddenBit * 2 ^ (y.magnitude / hiddenBit - 1) :=
        Nat.mul_le_mul_left _ (Nat.one_le_two_pow)
      omega
    · have hxd : 1 ≤ x.magnitude / hiddenBit := (Nat.one_le_div_iff hb).mpr (by omega)
      rw [units_bounds (x := x) (by omega)]
      have hle : x.magnitude / hiddenBit ≤ y.magnitude / hiddenBit := Nat.div_le_div_right h.le
      rcases Nat.lt_or_eq_of_le hle with hf | hf
      · have hlt : (x.magnitude % hiddenBit + hiddenBit) * 2 ^ (x.magnitude / hiddenBit - 1) <
            (2 * hiddenBit) * 2 ^ (x.magnitude / hiddenBit - 1) := by
          have := Nat.mod_lt x.magnitude hb
          exact Nat.mul_lt_mul_of_pos_right (by omega) (Nat.two_pow_pos _)
        have hp : (2 * hiddenBit) * 2 ^ (x.magnitude / hiddenBit - 1) =
            hiddenBit * 2 ^ (x.magnitude / hiddenBit) := by
          rw [show x.magnitude / hiddenBit = (x.magnitude / hiddenBit - 1) + 1 by omega, Nat.pow_succ,
            Nat.add_sub_cancel]
          ring
        have hq : hiddenBit * 2 ^ (x.magnitude / hiddenBit) ≤
            hiddenBit * 2 ^ (y.magnitude / hiddenBit - 1) :=
          Nat.mul_le_mul_left _ (Nat.pow_le_pow_right (by decide) (by omega))
        omega
      · rw [hf]
        refine Nat.mul_lt_mul_of_pos_right ?_ (Nat.two_pow_pos _)
        have hmx := Nat.div_add_mod x.magnitude hiddenBit
        have hmy := Nat.div_add_mod y.magnitude hiddenBit
        rw [hf] at hmx
        omega

theorem units_eq_of_magnitude (h : x.magnitude = y.magnitude) : x.units = y.units := by
  rw [units, units, significand, significand, exponent, exponent, h]

theorem magnitude_eq_of_units (h : x.units = y.units) : x.magnitude = y.magnitude := by
  rcases Nat.lt_trichotomy x.magnitude y.magnitude with hl | he | hl
  · exact absurd h (units_lt hl).ne
  · exact he
  · exact absurd h (units_lt hl).ne'

theorem units_eq_zero (h : x.units = 0) : x.magnitude = 0 := by
  by_cases hm : x.magnitude < hiddenBit
  · rwa [units_small hm] at h
  · rw [units_bounds (by omega), Nat.mul_eq_zero] at h
    have := Nat.two_pow_pos (x.magnitude / hiddenBit - 1)
    have hb : 0 < hiddenBit := by decide
    omega

theorem rank_eq_of_signedUnits (h : x.signedUnits = y.signedUnits) : x.rank = y.rank := by
  have hu : x.units = y.units := by
    unfold signedUnits at h
    split at h <;> split at h <;> omega
  refine rank_eq_iff.mpr ⟨magnitude_eq_of_units hu, ?_⟩
  by_cases hz : x.units = 0
  · exact .inl (units_eq_zero hz)
  · refine .inr ?_
    rw [signedUnits, signedUnits] at h
    cases hx : x.negative <;> cases hy : y.negative
    · rfl
    · rw [if_neg (Bool.eq_false_iff.mp hx), if_pos hy] at h
      omega
    · rw [if_pos hx, if_neg (Bool.eq_false_iff.mp hy)] at h
      omega
    · rfl

theorem withSign_lt {s t : Bool} {a a' b b' : Nat} (ha : a' = 0 → a = 0) (hb : b' = 0 → b = 0)
    (hlt : a < b → a' < b') (hgt : b < a → b' < a')
    (h : Integer.withSign s a < Integer.withSign t b) :
    Integer.withSign s a' < Integer.withSign t b' := by
  cases s <;> cases t <;> simp only [Integer.withSign, Bool.false_eq_true, if_false, if_true] at h ⊢
  case false.false => exact Int.ofNat_lt.mpr (hlt (Int.ofNat_lt.mp h))
  case false.true => omega
  case true.false =>
    by_cases hz : a' = 0
    · have hb' : b' ≠ 0 := mt hb (by have := ha hz; omega)
      omega
    · omega
  case true.true => exact Int.neg_lt_neg (Int.ofNat_lt.mpr (hgt (by omega)))

theorem signedUnits_lt (h : x.rank < y.rank) : x.signedUnits < y.signedUnits :=
  withSign_lt units_eq_zero units_eq_zero units_lt units_lt h

theorem signedUnits_eq_of_rank (h : x.rank = y.rank) : x.signedUnits = y.signedUnits := by
  obtain ⟨hm, hn⟩ := rank_eq_iff.mp h
  have hu : x.units = y.units := units_eq_of_magnitude hm
  rcases hn with hz | hn
  · have hx : x.units = 0 := by rw [units_small (by rw [hz]; decide), hz]
    simp [signedUnits, ← hu, hx]
  · rw [signedUnits, signedUnits, hu, hn]

theorem exponent_ge (x : Double) : -(unitPlaces : Int) ≤ x.exponent := by
  have hf : 0 ≤ ((x.magnitude / hiddenBit : Nat) : Int) := Int.natCast_nonneg _
  unfold exponent unitPlaces
  dsimp only
  split <;> omega

theorem signedUnits_eq (x : Double) :
    x.signedUnits = x.signedSignificand * 2 ^ (x.exponent + unitPlaces).toNat := by
  unfold signedUnits signedSignificand units
  split <;> simp

theorem signedUnits_of_toInt? {z : Int} (h : x.toInt? = some z) :
    x.signedUnits = z * 2 ^ unitPlaces := by
  have he := x.exponent_ge
  rw [toInt?, Option.ite_none_right_eq_some, Bool.and_eq_true, beq_iff_eq, Nat.one_shiftLeft] at h
  obtain ⟨⟨-, hm⟩, h⟩ := h
  obtain rfl := Option.some.inj h
  rw [signedUnits_eq, floorInt]
  by_cases hp : 0 ≤ x.exponent
  · have hs : (x.exponent + unitPlaces).toNat = x.exponent.toNat + unitPlaces := by omega
    rw [if_pos hp, hs, pow_add, Nat.one_shiftLeft]
    push_cast
    ring
  · have hd : (2 ^ (-x.exponent).toNat : Int) ∣ x.signedSignificand := by
      have hd : ((2 ^ (-x.exponent).toNat : Nat) : Int) ∣ (x.significand : Int) :=
        Int.natCast_dvd_natCast.mpr (Nat.dvd_of_mod_eq_zero hm)
      push_cast at hd
      unfold signedSignificand
      split
      · exact Int.dvd_neg.mpr hd
      · exact hd
    obtain ⟨q, hq⟩ := hd
    have hs : unitPlaces = (-x.exponent).toNat + (x.exponent + unitPlaces).toNat := by omega
    have hz : (2 ^ (-x.exponent).toNat : Int) ≠ 0 := pow_ne_zero _ (by decide)
    rw [if_neg hp, Int.shiftRight_eq_div_pow, hq]
    push_cast
    rw [Int.mul_ediv_cancel_left _ hz]
    conv_rhs => rw [hs, pow_add]
    ring

theorem rank_eq_of_toInt64? {i : Int64} (hx : x.toInt64? = some i) (hy : y.toInt64? = some i) :
    x.rank = y.rank := by
  obtain ⟨zx, hzx, hix⟩ := Option.bind_eq_some_iff.mp hx
  obtain ⟨zy, hzy, hiy⟩ := Option.bind_eq_some_iff.mp hy
  refine rank_eq_of_signedUnits ?_
  rw [signedUnits_of_toInt? hzx, signedUnits_of_toInt? hzy, Integer.toInt_of_ofInt? hix,
    Integer.toInt_of_ofInt? hiy]

/-- The integer that a number equals depends on no more than its value. -/
theorem toInt64?_eq_of_rank (h : x.rank = y.rank) : x.toInt64? = y.toInt64? := by
  obtain ⟨hm, hn⟩ := rank_eq_iff.mp h
  have hs : x.significand = y.significand := by rw [significand, significand, hm]
  have he : x.exponent = y.exponent := by rw [exponent, exponent, hm]
  have hf : x.isFinite = y.isFinite := by rw [isFinite, isFinite, hm]
  have hg : x.signedSignificand = y.signedSignificand := by
    rcases hn with hz | hn
    · have hx : x.significand = 0 := by simp [significand, hz, hiddenBit]
      simp [signedSignificand, ← hs, hx]
    · rw [signedSignificand, signedSignificand, hn, hs]
  rw [toInt64?, toInt64?, toInt?, toInt?, floorInt, floorInt, hs, he, hf, hg]

theorem isNaN_eq_of_rank (h : x.rank = y.rank) : x.isNaN = y.isNaN := by
  rw [isNaN, isNaN, (rank_eq_iff.mp h).1]

theorem toInt64?_of_isNaN (h : x.isNaN = true) : x.toInt64? = none := by
  have hf : x.isFinite = false := by
    rw [isNaN, decide_eq_true_eq] at h
    rw [isFinite, decide_eq_false_iff_not]
    omega
  simp [toInt64?, toInt?, hf]

theorem toInt64?_of_isZero (h : x.magnitude = 0) : x.toInt64? ≠ none := by
  have hr : x.rank = (zero false).rank := by
    rw [rank_eq_iff]
    exact ⟨h, .inl h⟩
  rw [toInt64?_eq_of_rank hr]
  decide

end LuaMachine.Double
