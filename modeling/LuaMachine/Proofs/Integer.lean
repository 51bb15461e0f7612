import LuaMachine.Integer
import Mathlib.Data.Int.Bitwise

namespace LuaMachine

namespace Integer

variable {a b n : Int64}

section Steps

/-- The steps of a computation with 64-bit integers; one that does not come out as it would with
unbounded integers, or as a shift by less than a word, has no result. -/
def exactQuotient? (a b : Int64) : Option Int64 :=
  if b = 0 then none else ofInt? (a.toInt.tdiv b.toInt)

def exactRemainder? (a b : Int64) : Option Int64 :=
  if (exactQuotient? a b).isSome then ofInt? (a.toInt.tmod b.toInt) else none

def exactSum? (a b : Int64) : Option Int64 := ofInt? (a.toInt + b.toInt)

def exactDifference? (a b : Int64) : Option Int64 := ofInt? (a.toInt - b.toInt)

def exactOpposite? (a : Int64) : Option Int64 := ofInt? (-a.toInt)

def places? (n : Int64) : Option UInt64 := if 0 ≤ n ∧ n < 64 then some n.toUInt64 else none

def floorDiv? (a b : Int64) : Option Int64 :=
  if b = -1 then some (-a)
  else do
    let q ← exactQuotient? a b
    let r ← exactRemainder? a b
    if r ≠ 0 ∧ a ^^^ b < 0 then exactDifference? q 1 else some q

def floorMod? (a b : Int64) : Option Int64 :=
  if b = -1 then some 0
  else do
    let r ← exactRemainder? a b
    if r ≠ 0 ∧ r ^^^ b < 0 then exactSum? r b else some r

def shiftLeft? (a n : Int64) : Option Int64 :=
  if n ≤ -64 || n ≥ 64 then some 0
  else if 0 ≤ n then do
    let k ← places? n
    some (a.toUInt64 <<< k).toInt64
  else do
    let k ← places? (← exactOpposite? n)
    some (a.toUInt64 >>> k).toInt64

end Steps

theorem ofInt?_toInt (a : Int64) : ofInt? a.toInt = some a := by
  rw [ofInt?, if_pos ⟨a.minValue_le_toInt, a.toInt_le⟩, Int64.ofInt_toInt]

theorem ofInt?_of_toInt {z : Int} (h : a.toInt = z) : ofInt? z = some a := h ▸ ofInt?_toInt a

theorem toInt_of_ofInt? {z : Int} (h : ofInt? z = some a) : z = a.toInt := by
  rw [ofInt?, Option.ite_none_right_eq_some] at h
  obtain ⟨⟨hl, hu⟩, h⟩ := h
  rw [← Option.some.inj h]
  exact (Int64.toInt_ofInt_of_le hl (Int.lt_of_le_of_lt hu (by decide))).symm

theorem xor_neg_iff : a ^^^ b < 0 ↔ (a.toInt < 0 ↔ ¬b.toInt < 0) := by
  have hm : (a ^^^ b).toBitVec.msb = (a.toBitVec.msb ^^ b.toBitVec.msb) := by
    rw [Int64.toBitVec_xor, BitVec.msb_xor]
  simp only [BitVec.msb_eq_toInt, Int64.toInt_toBitVec] at hm
  rw [Int64.lt_iff_toInt_lt, Int64.toInt_zero]
  by_cases ha : a.toInt < 0 <;> by_cases hb : b.toInt < 0 <;> simp [ha, hb] at hm ⊢ <;>
    omega

section Division

theorem toInt_ne_zero (hb : b ≠ 0) : b.toInt ≠ 0 := fun h => hb (Int64.toInt_inj.mp h)

theorem toInt_ne_neg_one (hb : b ≠ -1) : b.toInt ≠ -1 := fun h => hb (Int64.toInt_inj.mp h)

theorem fdiv_eq_corrected (x y : Int) (hy : y ≠ 0) : x.fdiv y =
    if x.tmod y ≠ 0 ∧ (x < 0 ↔ ¬y < 0) then x.tdiv y - 1 else x.tdiv y := by
  rw [Int.fdiv_eq_tdiv]
  by_cases hd : y ∣ x
  · rw [if_pos hd, Int.sub_zero, if_neg fun h => h.1 (Int.tmod_eq_zero_of_dvd hd)]
  · have hr : x.tmod y ≠ 0 := fun h => hd (Int.dvd_of_tmod_eq_zero h)
    rw [if_neg hd]
    rcases Int.lt_or_gt_of_ne hy with hy | hy
    · rw [Int.sign_eq_neg_one_of_neg hy]
      by_cases hx : 0 ≤ x
      · rw [if_pos hx, if_neg (by omega), if_pos ⟨hr, by omega⟩]
      · rw [if_neg hx, if_neg (by omega), if_neg (by omega)]
        omega
    · rw [Int.sign_eq_one_of_pos hy]
      by_cases hx : 0 ≤ x
      · rw [if_pos hx, if_pos (by omega), if_neg (by omega)]
        omega
      · rw [if_neg hx, if_pos (by omega), if_pos ⟨hr, by omega⟩]

theorem fmod_eq_corrected (x y : Int) (hy : y ≠ 0) : x.fmod y =
    if x.tmod y ≠ 0 ∧ (x.tmod y < 0 ↔ ¬y < 0) then x.tmod y + y else x.tmod y := by
  have hq := fdiv_eq_corrected x y hy
  have hx := Int.mul_tdiv_add_tmod x y
  have hs : x.tmod y ≠ 0 → (x.tmod y < 0 ↔ x < 0) := fun hr => by
    by_cases h : 0 ≤ x
    · have := Int.tmod_nonneg y h
      omega
    · have := Int.tmod_nonneg (a := -x) y (by omega)
      rw [Int.neg_tmod] at this
      omega
  rw [Int.fmod_def, hq]
  by_cases hc : x.tmod y ≠ 0 ∧ (x < 0 ↔ ¬y < 0)
  · rw [if_pos hc, if_pos ⟨hc.1, (hs hc.1).trans hc.2⟩, Int.mul_sub]
    omega
  · rw [if_neg hc, if_neg fun h => hc ⟨h.1, (hs h.1).symm.trans h.2⟩]
    omega

theorem toInt_quotient (hb : b ≠ -1) : (a / b).toInt = a.toInt.tdiv b.toInt :=
  Int64.toInt_div_of_ne_right a b hb

theorem exactQuotient?_eq (h0 : b ≠ 0) (h1 : b ≠ -1) : exactQuotient? a b = some (a / b) := by
  rw [exactQuotient?, if_neg h0]
  exact ofInt?_of_toInt (toInt_quotient h1)

theorem exactRemainder?_eq (h0 : b ≠ 0) (h1 : b ≠ -1) : exactRemainder? a b = some (a % b) := by
  rw [exactRemainder?, exactQuotient?_eq h0 h1]
  exact ofInt?_of_toInt (Int64.toInt_mod a b)

/-- A quotient that is not exact is not the least integer, so that it can be made smaller. -/
theorem least_lt_quotient {x y : Int} (hx : -2 ^ 63 ≤ x) (hx' : x < 2 ^ 63) (hy : y ≠ -1)
    (hr : x.tmod y ≠ 0) : -2 ^ 63 < x.tdiv y := by
  by_cases h1 : y = 1
  · exact absurd (h1 ▸ Int.tmod_one x) hr
  by_cases h0 : y = 0
  · rw [h0, Int.tdiv_zero]
    decide
  have hq : (x.tdiv y).natAbs = x.natAbs / y.natAbs := Int.natAbs_tdiv x y
  have hl : x.natAbs / y.natAbs ≤ x.natAbs / 2 := Nat.div_le_div_left (by omega) (by decide)
  omega

theorem toInt_corrected (h1 : b ≠ -1) (hr : a % b ≠ 0) : (a / b - 1).toInt = (a / b).toInt - 1 := by
  have hl : -2 ^ 63 < (a / b).toInt := by
    rw [toInt_quotient h1]
    refine least_lt_quotient a.le_toInt a.toInt_lt (toInt_ne_neg_one h1) ?_
    rw [← Int64.toInt_mod]
    exact toInt_ne_zero hr
  have hu := (a / b).toInt_lt
  rw [Int64.toInt_sub, Int64.toInt_one]
  exact Int.bmod_eq_of_le (by omega) (by omega)

theorem rest_ne_zero_iff : a % b ≠ 0 ↔ a.toInt.tmod b.toInt ≠ 0 := by
  rw [← Int64.toInt_mod, Ne, ← Int64.toInt_inj, Int64.toInt_zero]

theorem floorDiv_inexact (h1 : b ≠ -1) (hc : a % b ≠ 0 ∧ a ^^^ b < 0) :
    floorDiv a b = a / b - 1 := by
  rw [floorDiv, if_neg h1]
  exact if_pos hc

theorem floorDiv_plain (h1 : b ≠ -1) (hc : ¬(a % b ≠ 0 ∧ a ^^^ b < 0)) :
    floorDiv a b = a / b := by
  rw [floorDiv, if_neg h1]
  exact if_neg hc

theorem toInt_floorDiv (h0 : b ≠ 0) (h1 : b ≠ -1) :
    (floorDiv a b).toInt = a.toInt.fdiv b.toInt := by
  have hf := fdiv_eq_corrected a.toInt b.toInt (toInt_ne_zero h0)
  rw [← toInt_quotient h1] at hf
  by_cases hc : a % b ≠ 0 ∧ a ^^^ b < 0
  · rw [floorDiv_inexact h1 hc, toInt_corrected h1 hc.1, hf,
      if_pos ⟨rest_ne_zero_iff.mp hc.1, xor_neg_iff.mp hc.2⟩]
  · rw [floorDiv_plain h1 hc, hf,
      if_neg fun h => hc ⟨rest_ne_zero_iff.mpr h.1, xor_neg_iff.mpr h.2⟩]

theorem floorDiv_eq (h0 : b ≠ 0) : floorDiv a b = Int64.ofInt (a.toInt.fdiv b.toInt) := by
  -- division by -1 is a negation, which comes round at the least integer
  by_cases h1 : b = -1
  · subst h1
    have hn : a.toInt.fdiv (-1) = -a.toInt := by
      rw [Int.fdiv_neg (by decide), if_pos (Int.one_dvd _), Int.fdiv_one]
    rw [floorDiv, if_pos rfl]
    change -a = Int64.ofInt (a.toInt.fdiv (-1))
    rw [hn, Int64.ofInt_neg, Int64.ofInt_toInt]
  · rw [← toInt_floorDiv h0 h1, Int64.ofInt_toInt]

theorem floorMod_corrected (h1 : b ≠ -1) (hc : a % b ≠ 0 ∧ (a % b) ^^^ b < 0) :
    floorMod a b = a % b + b := by
  rw [floorMod, if_neg h1]
  exact if_pos hc

theorem floorMod_plain (h1 : b ≠ -1) (hc : ¬(a % b ≠ 0 ∧ (a % b) ^^^ b < 0)) :
    floorMod a b = a % b := by
  rw [floorMod, if_neg h1]
  exact if_neg hc

theorem toInt_add_of_xor_neg (hx : a ^^^ b < 0) : (a + b).toInt = a.toInt + b.toInt := by
  have hs := xor_neg_iff.mp hx
  have hl := a.le_toInt
  have hu := a.toInt_lt
  have hl' := b.le_toInt
  have hu' := b.toInt_lt
  rw [Int64.toInt_add]
  exact Int.bmod_eq_of_le (by omega) (by omega)

theorem toInt_floorMod (h0 : b ≠ 0) : (floorMod a b).toInt = a.toInt.fmod b.toInt := by
  by_cases h1 : b = -1
  · subst h1
    rw [floorMod, if_pos rfl]
    exact (Int.fmod_eq_zero_of_dvd (Int.neg_dvd.mpr (Int.one_dvd a.toInt))).symm
  have hf := fmod_eq_corrected a.toInt b.toInt (toInt_ne_zero h0)
  rw [← Int64.toInt_mod] at hf
  by_cases hc : a % b ≠ 0 ∧ (a % b) ^^^ b < 0
  · rw [floorMod_corrected h1 hc, toInt_add_of_xor_neg hc.2, hf,
      if_pos ⟨toInt_ne_zero hc.1, xor_neg_iff.mp hc.2⟩]
  · rw [floorMod_plain h1 hc, hf,
      if_neg fun h => hc ⟨fun hz => h.1 (hz ▸ rfl), xor_neg_iff.mpr h.2⟩]

theorem floorDiv?_eq (h0 : b ≠ 0) : floorDiv? a b = some (floorDiv a b) := by
  by_cases h1 : b = -1
  · rw [floorDiv?, floorDiv, if_pos h1, if_pos h1]
  rw [floorDiv?, if_neg h1, exactQuotient?_eq h0 h1, exactRemainder?_eq h0 h1]
  simp only [Option.bind_eq_bind, Option.bind_some]
  by_cases hc : a % b ≠ 0 ∧ a ^^^ b < 0
  · rw [if_pos hc, floorDiv_inexact h1 hc]
    exact ofInt?_of_toInt (toInt_corrected h1 hc.1)
  · rw [if_neg hc, floorDiv_plain h1 hc]

theorem floorMod?_eq (h0 : b ≠ 0) : floorMod? a b = some (floorMod a b) := by
  by_cases h1 : b = -1
  · rw [floorMod?, floorMod, if_pos h1, if_pos h1]
  rw [floorMod?, if_neg h1, exactRemainder?_eq h0 h1]
  simp only [Option.bind_eq_bind, Option.bind_some]
  by_cases hc : a % b ≠ 0 ∧ (a % b) ^^^ b < 0
  · rw [if_pos hc, floorMod_corrected h1 hc]
    exact ofInt?_of_toInt (toInt_add_of_xor_neg hc.2)
  · rw [if_neg hc, floorMod_plain h1 hc]

end Division

section Digits

theorem getLsbD_ofInt (z : Int) {i : Nat} (hi : i < 64) :
    (BitVec.ofInt 64 z).getLsbD i = z.testBit i := by
  cases z with
  | ofNat n =>
    rw [Int.ofNat_eq_natCast, BitVec.ofInt_natCast, BitVec.getLsbD_ofNat, decide_eq_true hi]
    rfl
  | negSucc n =>
    rw [BitVec.ofInt_negSucc_eq_not_ofNat, BitVec.getLsbD_not, BitVec.getLsbD_ofNat,
      decide_eq_true hi]
    rfl

theorem getLsbD_toBitVec {i : Nat} (hi : i < 64) : a.toBitVec.getLsbD i = a.toInt.testBit i := by
  rw [← getLsbD_ofInt _ hi, ← Int64.toInt_toBitVec, BitVec.ofInt_toInt]

theorem eq_ofInt_of_testBit {r : Int64} {z : Int}
    (h : ∀ i < 64, r.toBitVec.getLsbD i = z.testBit i) : r = Int64.ofInt z := by
  rw [← Int64.toBitVec_inj, Int64.toBitVec_ofInt]
  exact BitVec.eq_of_getLsbD_eq fun i hi => (h i hi).trans (getLsbD_ofInt z hi).symm

theorem and_eq : a &&& b = Int64.ofInt (a.toInt.land b.toInt) :=
  eq_ofInt_of_testBit fun i hi => by
    rw [Int64.toBitVec_and, BitVec.getLsbD_and, getLsbD_toBitVec hi, getLsbD_toBitVec hi,
      Int.testBit_land]

theorem or_eq : a ||| b = Int64.ofInt (a.toInt.lor b.toInt) :=
  eq_ofInt_of_testBit fun i hi => by
    rw [Int64.toBitVec_or, BitVec.getLsbD_or, getLsbD_toBitVec hi, getLsbD_toBitVec hi,
      Int.testBit_lor]

theorem xor_eq : a ^^^ b = Int64.ofInt (a.toInt.xor b.toInt) :=
  eq_ofInt_of_testBit fun i hi => by
    rw [Int64.toBitVec_xor, BitVec.getLsbD_xor, getLsbD_toBitVec hi, getLsbD_toBitVec hi,
      Int.testBit_lxor]

theorem not_eq : ~~~a = Int64.ofInt a.toInt.lnot :=
  eq_ofInt_of_testBit fun i hi => by
    rw [Int64.toBitVec_not, BitVec.getLsbD_not, getLsbD_toBitVec hi, Int.testBit_lnot,
      decide_eq_true hi, Bool.true_and]

end Digits

section Shift

def word (a : Int64) : Int := a.toInt % 2 ^ 64

/-- The shift of the digits by `n` places towards the high end, or by `-n` towards the low end,
where zeros come in. -/
def shifted (a : Int64) (n : Int) : Int :=
  if 0 ≤ n then word a * 2 ^ n.toNat else word a / 2 ^ (-n).toNat

theorem word_eq : word a = a.toBitVec.toNat := by
  rw [word, ← Int64.toInt_toBitVec, BitVec.toInt_eq_toNat_bmod]
  exact Int.bmod_emod.trans (Int.emod_eq_of_lt (by omega) (by exact_mod_cast a.toBitVec.isLt))

theorem ofInt_shifted_high {k : Nat} :
    (Int64.ofInt (word a * 2 ^ k)).toBitVec = a.toBitVec <<< k := by
  have hz : (a.toBitVec.toNat : Int) * 2 ^ k = (a.toBitVec.toNat * 2 ^ k : Nat) := by norm_cast
  rw [Int64.toBitVec_ofInt, word_eq, hz, BitVec.ofInt_natCast]
  apply BitVec.eq_of_toNat_eq
  rw [BitVec.toNat_ofNat, BitVec.toNat_shiftLeft, Nat.shiftLeft_eq]

theorem ofInt_shifted_low {k : Nat} :
    (Int64.ofInt (word a / 2 ^ k)).toBitVec = a.toBitVec >>> k := by
  have hz : (a.toBitVec.toNat : Int) / 2 ^ k = (a.toBitVec.toNat / 2 ^ k : Nat) := by norm_cast
  rw [Int64.toBitVec_ofInt, word_eq, hz, BitVec.ofInt_natCast]
  apply BitVec.eq_of_toNat_eq
  rw [BitVec.toNat_ofNat, BitVec.toNat_ushiftRight, Nat.shiftRight_eq_div_pow]
  exact Nat.mod_eq_of_lt ((Nat.div_le_self _ _).trans_lt a.toBitVec.isLt)

theorem ofInt_shifted_far {n : Int} (h : 64 ≤ n.natAbs) : Int64.ofInt (shifted a n) = 0 := by
  rw [← Int64.toBitVec_inj, shifted]
  by_cases h0 : 0 ≤ n
  · rw [if_pos h0, ofInt_shifted_high]
    exact BitVec.shiftLeft_eq_zero (by omega)
  · rw [if_neg h0, ofInt_shifted_low]
    exact BitVec.ushiftRight_eq_zero (by omega)

theorem toNat_places (h0 : 0 ≤ n.toInt) (h : n.toInt < 64) :
    (n.toUInt64.toBitVec % 64).toNat = n.toInt.toNat := by
  have hw := word_eq (a := n)
  rw [word, Int.emod_eq_of_lt h0 (by omega)] at hw
  rw [Int64.toBitVec_toUInt64, BitVec.toNat_umod, hw, Int.toNat_natCast]
  exact Nat.mod_eq_of_lt (by change _ < 64; omega)

theorem toInt_opposite (h : -2 ^ 63 < n.toInt) : (-n).toInt = -n.toInt := by
  have hu := n.toInt_lt
  rw [Int64.toInt_neg]
  exact Int.bmod_eq_of_le (by omega) (by omega)

theorem far_iff : (n ≤ -64 || n ≥ 64) = true ↔ 64 ≤ n.toInt.natAbs := by
  have hl : n ≤ -64 ↔ n.toInt ≤ -64 := Int64.le_iff_toInt_le
  have hh : n ≥ 64 ↔ 64 ≤ n.toInt := Int64.le_iff_toInt_le
  rw [Bool.or_eq_true, decide_eq_true_iff, decide_eq_true_iff, hl, hh]
  omega

theorem nonneg_iff : 0 ≤ n ↔ 0 ≤ n.toInt := Int64.le_iff_toInt_le

theorem shiftLeft_eq : shiftLeft a n = Int64.ofInt (shifted a n.toInt) := by
  rw [shiftLeft]
  by_cases hf : 64 ≤ n.toInt.natAbs
  · rw [if_pos (far_iff.mpr hf), ofInt_shifted_far hf]
  rw [if_neg fun h => hf (far_iff.mp h), ← Int64.toBitVec_inj, shifted]
  by_cases h0 : 0 ≤ n.toInt
  · rw [if_pos (nonneg_iff.mpr h0), if_pos h0, ofInt_shifted_high, UInt64.toBitVec_toInt64,
      UInt64.toBitVec_shiftLeft, Int64.toBitVec_toUInt64, BitVec.shiftLeft_eq',
      toNat_places h0 (by omega)]
  · have hn := toInt_opposite (n := n) (by omega)
    rw [if_neg fun h => h0 (nonneg_iff.mp h), if_neg h0, ofInt_shifted_low,
      UInt64.toBitVec_toInt64, UInt64.toBitVec_shiftRight, Int64.toBitVec_toUInt64,
      BitVec.ushiftRight_eq', toNat_places (by omega) (by omega), hn]

theorem shiftRight_eq : shiftRight a n = Int64.ofInt (shifted a (-n.toInt)) := by
  rw [shiftRight, shiftLeft_eq]
  by_cases hl : -2 ^ 63 < n.toInt
  · rw [toInt_opposite hl]
  · have hm : n = Int64.minValue := Int64.toInt_inj.mp (by
      have := n.le_toInt
      rw [Int64.toInt_minValue]
      omega)
    rw [hm, ofInt_shifted_far (by decide), ofInt_shifted_far (by decide)]

theorem places?_eq (h0 : 0 ≤ n.toInt) (h : n.toInt < 64) : places? n = some n.toUInt64 :=
  if_pos ⟨nonneg_iff.mpr h0, Int64.lt_iff_toInt_lt.mpr h⟩

theorem shiftLeft?_eq : shiftLeft? a n = some (shiftLeft a n) := by
  rw [shiftLeft?, shiftLeft]
  by_cases hf : (n ≤ -64 || n ≥ 64) = true
  · rw [if_pos hf, if_pos hf]
  rw [if_neg hf, if_neg hf]
  rw [far_iff] at hf
  by_cases h0 : 0 ≤ n
  · rw [if_pos h0, if_pos h0, places?_eq (nonneg_iff.mp h0) (by omega)]
    rfl
  · rw [nonneg_iff] at h0
    have hn := toInt_opposite (n := n) (by omega)
    have hd : exactOpposite? n = some (-n) := ofInt?_of_toInt hn
    rw [if_neg fun h => h0 (nonneg_iff.mp h), if_neg fun h => h0 (nonneg_iff.mp h), hd,
      Option.bind_eq_bind, Option.bind_some, places?_eq (by omega) (by omega)]
    rfl

end Shift

end Integer
end LuaMachine
