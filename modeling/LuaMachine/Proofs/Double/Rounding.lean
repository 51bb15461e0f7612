import LuaMachine.Double.Round
import LuaMachine.Proofs.Double

namespace LuaMachine.Double

variable {x y : Double} {n : Nat} {z : Int}

theorem isNaN_of_isFinite (h : x.isFinite = true) : x.isNaN = false := by
  rw [isFinite, decide_eq_true_eq] at h
  exact decide_eq_false h.asymm

theorem lt_iff (hx : x.isNaN = false) (hy : y.isNaN = false) : x.lt y = true ↔ x.rank < y.rank := by
  simp [lt, hx, hy]

theorem le_iff (hx : x.isNaN = false) (hy : y.isNaN = false) : x.le y = true ↔ x.rank ≤ y.rank := by
  simp [le, hx, hy]

theorem toNat_ofMagnitude {negative : Bool} {m : Nat} (h : m ≤ infinityBits) :
    (ofMagnitude negative m).bits.toNat = (if negative then 2 ^ 63 else 0) + m := by
  have hm : m < 2 ^ 63 := Nat.lt_of_le_of_lt h (by decide)
  have hb : (UInt64.ofNat m).toNat = m :=
    UInt64.toNat_ofNat_of_lt' (Nat.lt_of_le_of_lt h (by decide))
  rw [ofMagnitude, Nat.min_eq_left h]
  cases negative
  · exact hb.trans (Nat.zero_add m).symm
  · have hs : (UInt64.ofNat m ||| signBit).toNat = 2 ^ 63 * 1 + m := by
      rw [UInt64.toNat_or, hb, Nat.or_comm]
      exact (Nat.two_pow_add_eq_or_of_lt hm 1).symm
    exact hs

theorem magnitude_ofMagnitude {negative : Bool} {m : Nat} (h : m ≤ infinityBits) :
    (ofMagnitude negative m).magnitude = m := by
  have hm : m < 2 ^ 63 := Nat.lt_of_le_of_lt h (by decide)
  rw [magnitude_eq, toNat_ofMagnitude h]
  split <;> omega

theorem negative_ofMagnitude {negative : Bool} {m : Nat} (h : m ≤ infinityBits) :
    (ofMagnitude negative m).negative = negative := by
  have hm : m < 2 ^ 63 := Nat.lt_of_le_of_lt h (by decide)
  rw [negative_eq, toNat_ofMagnitude h]
  cases negative
  · exact decide_eq_false (by simpa using hm)
  · exact decide_eq_true (Nat.le_add_right ..)

theorem units_eq_mul {q f : Nat} (hm : x.magnitude = q + f * hiddenBit) (hl : hiddenBit ≤ q)
    (hu : q ≤ 2 * hiddenBit) : x.units = q * 2 ^ f := by
  have hb : 0 < hiddenBit := by decide
  rw [units_bounds (by omega)]
  -- with a carry it is the least significand at the next exponent
  rcases Nat.lt_or_eq_of_le hu with hq | rfl
  · have hd : x.magnitude / hiddenBit = f + 1 := by
      rw [hm, Nat.add_mul_div_right _ _ hb, Nat.div_eq_of_lt_le (k := 1) (by omega) (by omega)]
      omega
    have hr : x.magnitude % hiddenBit + hiddenBit = q := by
      rw [hm, Nat.add_mul_mod_self_right, Nat.mod_eq_sub_mod hl, Nat.mod_eq_of_lt (by omega)]
      omega
    rw [hd, hr, Nat.add_sub_cancel]
  · have he : x.magnitude = (f + 2) * hiddenBit := by
      rw [hm]
      ring
    rw [he, Nat.mul_div_cancel _ hb, Nat.mul_mod_left, Nat.zero_add,
      show f + 2 - 1 = f + 1 by omega, Nat.pow_succ]
    ring

theorem shiftHalfEven_cases {s : Nat} (hs : 0 < s) (hn : s ≤ n.log2) :
    shiftHalfEven n s = n / 2 ^ s ∨
      shiftHalfEven n s = n / 2 ^ s + 1 ∧ n / 2 ^ s * 2 ^ s < n := by
  rw [shiftHalfEven, if_neg (by omega), Nat.shiftRight_eq_div_pow]
  dsimp only
  rw [Nat.shiftLeft_eq 1, Nat.one_mul, Nat.shiftLeft_eq]
  split
  next h =>
    refine .inr ⟨rfl, ?_⟩
    have hp : 2 ^ s = 2 * 2 ^ (s - 1) := by
      rw [← Nat.pow_succ', Nat.succ_eq_add_one, Nat.sub_add_cancel hs]
    have := Nat.two_pow_pos (s - 1)
    omega
  · exact .inl rfl

/-- The leading 53 bits of an integer, with zeros after them if it has fewer. -/
def leading (n : Nat) : Nat := n * 2 ^ 52 / 2 ^ n.log2

theorem leading_mul_le : leading n * 2 ^ n.log2 ≤ n * 2 ^ 52 := Nat.div_mul_le_self ..

theorem lt_leading_mul : n * 2 ^ 52 < (leading n + 1) * 2 ^ n.log2 := by
  rw [Nat.add_one_mul]
  exact Nat.lt_div_mul_add (Nat.two_pow_pos _)

theorem hiddenBit_le_leading (hz : n ≠ 0) : hiddenBit ≤ leading n := by
  rw [leading, Nat.le_div_iff_mul_le (Nat.two_pow_pos _), Nat.mul_comm]
  exact Nat.mul_le_mul_right _ (Nat.log2_self_le hz)

theorem leading_lt (n : Nat) : leading n < 2 * hiddenBit := by
  rw [leading, Nat.div_lt_iff_lt_mul (Nat.two_pow_pos _)]
  calc n * 2 ^ 52
    _ < 2 ^ (n.log2 + 1) * 2 ^ 52 := Nat.mul_lt_mul_of_pos_right Nat.lt_log2_self (by decide)
    _ = 2 * hiddenBit * 2 ^ n.log2 := by
      rw [Nat.pow_succ', show hiddenBit = 2 ^ 52 by decide]
      ring

/-- An integer has the leading bits for its significand, or one more if other bits follow them. -/
theorem roundMagnitude_cases (hz : n ≠ 0) (hn : n < 2 ^ 64) :
    roundMagnitude n 0 = leading n + (n.log2 + 1022) * hiddenBit ∨
      roundMagnitude n 0 = leading n + 1 + (n.log2 + 1022) * hiddenBit ∧
        leading n * 2 ^ n.log2 < n * 2 ^ 52 := by
  have hk : n.log2 < 64 := (Nat.log2_lt hz).mpr hn
  have hshift : max ((n.log2 : Int) - 52) (-1074 - 0) = n.log2 - 52 := by omega
  have hf : (0 + ((n.log2 : Int) - 52) + 1074).toNat = n.log2 + 1022 := by omega
  rw [roundMagnitude, if_neg hz, hshift]
  dsimp only
  rw [hf, if_neg (by omega), Nat.shiftLeft_eq _ 52, show hiddenBit = 2 ^ 52 by decide]
  by_cases hs : n.log2 ≤ 52
  · have hp : (-((n.log2 : Int) - 52)).toNat = 52 - n.log2 := by omega
    have hq : leading n = n * 2 ^ (52 - n.log2) := by
      have h52 : 2 ^ 52 = 2 ^ (52 - n.log2) * 2 ^ n.log2 := by
        rw [← Nat.pow_add, Nat.sub_add_cancel hs]
      rw [leading, h52, ← Nat.mul_assoc, Nat.mul_div_cancel _ (Nat.two_pow_pos _)]
    rw [if_pos (by omega), hp, Nat.shiftLeft_eq, hq]
    exact .inl rfl
  · obtain ⟨s, hs⟩ : ∃ s, n.log2 = s + 52 := ⟨n.log2 - 52, by omega⟩
    have hp : ((n.log2 : Int) - 52).toNat = s := by omega
    have hq : leading n = n / 2 ^ s := by
      rw [leading, hs, Nat.pow_add, Nat.mul_div_mul_right _ _ (by decide)]
    rw [if_neg (by omega), hp, hq]
    rcases shiftHalfEven_cases (n := n) (s := s) (by omega) (by omega) with he | ⟨he, hlt⟩
    · exact .inl (by rw [he])
    · refine .inr ⟨by rw [he], ?_⟩
      rw [hs, Nat.pow_add, ← Nat.mul_assoc]
      exact Nat.mul_lt_mul_of_pos_right hlt (by decide)

theorem mul_exponent (n q : Nat) :
    q * 2 ^ (n.log2 + 1022) = q * 2 ^ n.log2 * 2 ^ (unitPlaces - 52) := by
  rw [Nat.mul_assoc, ← Nat.pow_add, show unitPlaces - 52 = 1022 by decide]

theorem mul_unitPlaces (n : Nat) : n * 2 ^ unitPlaces = n * 2 ^ 52 * 2 ^ (unitPlaces - 52) := by
  rw [Nat.mul_assoc, ← Nat.pow_add, Nat.add_sub_cancel' (show 52 ≤ unitPlaces by decide)]

theorem roundMagnitude_zero : roundMagnitude 0 0 = 0 := rfl

theorem roundMagnitude_lt (hn : n < 2 ^ 64) : roundMagnitude n 0 < infinityBits := by
  by_cases hz : n = 0
  · rw [hz, roundMagnitude_zero]
    decide
  · have hk : n.log2 < 64 := (Nat.log2_lt hz).mpr hn
    have hq := leading_lt n
    have hf : (n.log2 + 1022) * hiddenBit ≤ 1085 * hiddenBit := Nat.mul_le_mul_right _ (by omega)
    have hi : 1085 * hiddenBit + 2 * hiddenBit < infinityBits := by decide
    rcases roundMagnitude_cases hz hn with hr | ⟨hr, -⟩ <;> omega

theorem exists_units (hz : n ≠ 0) (hn : n < 2 ^ 64) {q : Nat} (hl : hiddenBit ≤ q)
    (hu : q ≤ 2 * hiddenBit) : ∃ y : Double, y.magnitude = q + (n.log2 + 1022) * hiddenBit ∧
      y.units = q * 2 ^ n.log2 * 2 ^ (unitPlaces - 52) := by
  have hk : n.log2 < 64 := (Nat.log2_lt hz).mpr hn
  have hf : (n.log2 + 1022) * hiddenBit ≤ 1085 * hiddenBit := Nat.mul_le_mul_right _ (by omega)
  have hi : 1085 * hiddenBit + 2 * hiddenBit < infinityBits := by decide
  have hm : (ofMagnitude false (q + (n.log2 + 1022) * hiddenBit)).magnitude =
      q + (n.log2 + 1022) * hiddenBit := magnitude_ofMagnitude (by omega)
  exact ⟨_, hm, (units_eq_mul hm hl hu).trans (mul_exponent n q)⟩

theorem units_lt_of_lt_round (hn : n < 2 ^ 64) (h : x.magnitude < roundMagnitude n 0) :
    x.units < n * 2 ^ unitPlaces := by
  have hz : n ≠ 0 := fun hz => by
    rw [hz, roundMagnitude_zero] at h
    exact absurd h (Nat.not_lt_zero _)
  -- `y` is the lower neighbour of the integer, and may be `x`.
  obtain ⟨y, hy, hv⟩ := exists_units hz hn (hiddenBit_le_leading hz) (leading_lt n).le
  have hpos : 0 < 2 ^ (unitPlaces - 52) := Nat.two_pow_pos _
  have hlow : y.units ≤ n * 2 ^ unitPlaces := by
    rw [hv, mul_unitPlaces]
    exact Nat.mul_le_mul_right _ leading_mul_le
  rcases Nat.lt_or_ge x.magnitude y.magnitude with hx | hx
  · exact Nat.lt_of_lt_of_le (units_lt hx) hlow
  · rcases roundMagnitude_cases hz hn with hr | ⟨hr, hlt⟩
    · omega
    · have hx : x.units = y.units := units_eq_of_magnitude (by omega)
      rw [hx, hv, mul_unitPlaces]
      exact Nat.mul_lt_mul_of_pos_right hlt hpos

theorem lt_units_of_round_lt (hn : n < 2 ^ 64) (h : roundMagnitude n 0 < x.magnitude) :
    n * 2 ^ unitPlaces < x.units := by
  by_cases hz : n = 0
  · rw [hz, Nat.zero_mul]
    rw [hz, roundMagnitude_zero] at h
    exact Nat.pos_of_ne_zero fun hu => h.ne' (units_eq_zero hu)
  · have hl := hiddenBit_le_leading hz
    have hq := leading_lt n
    -- `y` is the upper neighbour of the integer, and may be `x`.
    obtain ⟨y, hy, hv⟩ := exists_units hz hn (q := leading n + 1) (by omega) (by omega)
    have hhigh : n * 2 ^ unitPlaces < y.units := by
      rw [hv, mul_unitPlaces]
      exact Nat.mul_lt_mul_of_pos_right lt_leading_mul (Nat.two_pow_pos _)
    have hle : y.magnitude ≤ x.magnitude := by
      rcases roundMagnitude_cases hz hn with hr | ⟨hr, -⟩ <;> omega
    rcases Nat.lt_or_eq_of_le hle with hx | hx
    · exact hhigh.trans (units_lt hx)
    · rwa [← units_eq_of_magnitude hx]

theorem magnitude_ofInt (hz : z.natAbs < 2 ^ 64) :
    (ofInt z).magnitude = roundMagnitude z.natAbs 0 :=
  magnitude_ofMagnitude (roundMagnitude_lt hz).le

theorem isFinite_ofInt (hz : z.natAbs < 2 ^ 64) : (ofInt z).isFinite = true := by
  rw [isFinite, magnitude_ofInt hz, decide_eq_true_eq]
  exact roundMagnitude_lt hz

theorem rank_ofInt (hz : z.natAbs < 2 ^ 64) :
    (ofInt z).rank = Integer.withSign (z < 0) (roundMagnitude z.natAbs 0) := by
  have hn : (ofInt z).negative = decide (z < 0) := negative_ofMagnitude (roundMagnitude_lt hz).le
  rw [rank, magnitude_ofInt hz, hn]
  rfl

theorem mul_unitPlaces_eq (z : Int) :
    z * 2 ^ unitPlaces = Integer.withSign (z < 0) (z.natAbs * 2 ^ unitPlaces) := by
  rw [Integer.withSign]
  push_cast
  by_cases h : z < 0
  · rw [if_pos (by simpa using h), abs_of_neg h]
    ring
  · rw [if_neg (by simpa using h), abs_of_nonneg (by omega)]

theorem roundMagnitude_eq_zero (h : n * 2 ^ unitPlaces = 0) : roundMagnitude n 0 = 0 := by
  have hn : n = 0 := by simpa using h
  rw [hn, roundMagnitude_zero]

theorem signedUnits_lt_of_rank_lt (hz : z.natAbs < 2 ^ 64) (h : x.rank < (ofInt z).rank) :
    x.signedUnits < z * 2 ^ unitPlaces := by
  rw [rank_ofInt hz] at h
  rw [mul_unitPlaces_eq]
  exact withSign_lt units_eq_zero roundMagnitude_eq_zero (units_lt_of_lt_round hz)
    (lt_units_of_round_lt hz) h

theorem lt_signedUnits_of_lt_rank (hz : z.natAbs < 2 ^ 64) (h : (ofInt z).rank < x.rank) :
    z * 2 ^ unitPlaces < x.signedUnits := by
  rw [rank_ofInt hz] at h
  rw [mul_unitPlaces_eq]
  exact withSign_lt roundMagnitude_eq_zero units_eq_zero (lt_units_of_round_lt hz)
    (units_lt_of_lt_round hz) h

theorem rank_eq_ofInt (hz : z.natAbs < 2 ^ 64) (h : x.signedUnits = z * 2 ^ unitPlaces) :
    x.rank = (ofInt z).rank := by
  rcases Int.lt_trichotomy x.rank (ofInt z).rank with hl | he | hl
  · exact absurd h (signedUnits_lt_of_rank_lt hz hl).ne
  · exact he
  · exact absurd h (lt_signedUnits_of_lt_rank hz hl).ne'

theorem dvd_significand (h : x.units = n * 2 ^ unitPlaces) :
    2 ^ (-x.exponent).toNat ∣ x.significand := by
  have he := x.exponent_ge
  by_cases hx : 0 ≤ x.exponent
  · rw [Int.toNat_of_nonpos (by omega)]
    exact Nat.one_dvd _
  · have hk : unitPlaces = (-x.exponent).toNat + (x.exponent + unitPlaces).toNat := by omega
    have hm : x.significand * 2 ^ (x.exponent + unitPlaces).toNat =
        2 ^ (-x.exponent).toNat * n * 2 ^ (x.exponent + unitPlaces).toNat := by
      rw [← units, h, Nat.mul_comm (2 ^ _) n, Nat.mul_assoc, ← Nat.pow_add, ← hk]
    exact ⟨n, Nat.mul_right_cancel (Nat.two_pow_pos _) hm⟩

theorem toInt?_of_signedUnits (hz : z.natAbs < 2 ^ 64) (h : x.signedUnits = z * 2 ^ unitPlaces) :
    x.toInt? = some z := by
  have hf : x.isFinite = true := by
    rw [isFinite, (rank_eq_iff.mp (rank_eq_ofInt hz h)).1]
    exact isFinite_ofInt hz
  have hu : x.units = z.natAbs * 2 ^ unitPlaces := by
    have hs : x.units = x.signedUnits.natAbs := by
      unfold signedUnits
      split <;> simp
    rw [hs, h, Int.natAbs_mul, Int.natAbs_pow, show (2 : Int).natAbs = 2 by decide]
  have hi : x.toInt? = some x.floorInt := by
    rw [toInt?, hf, Nat.one_shiftLeft, Nat.mod_eq_zero_of_dvd (dvd_significand hu)]
    rfl
  have hv := (signedUnits_of_toInt? hi).symm.trans h
  rw [hi, mul_right_cancel₀ (pow_ne_zero _ (by decide)) hv]

theorem natAbs_toInt_lt (i : Int64) : i.toInt.natAbs < 2 ^ 64 := by
  have := i.le_toInt
  have := i.toInt_lt
  omega

/-- A float equals a 64-bit integer if it has its value. -/
theorem toInt64?_eq_some_iff {i : Int64} :
    x.toInt64? = some i ↔ x.signedUnits = i.toInt * 2 ^ unitPlaces := by
  constructor
  · intro h
    obtain ⟨z, hz, hi⟩ := Option.bind_eq_some_iff.mp h
    rw [signedUnits_of_toInt? hz, Integer.toInt_of_ofInt? hi]
  · intro h
    rw [toInt64?, toInt?_of_signedUnits (natAbs_toInt_lt i) h]
    exact Integer.ofInt?_toInt i

end LuaMachine.Double
