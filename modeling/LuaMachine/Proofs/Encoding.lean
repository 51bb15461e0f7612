import LuaMachine.Instruction
import Mathlib.Data.Nat.Bitwise

namespace LuaMachine

theorem UInt32.ext_testBit {x y : UInt32}
    (h : ∀ n < 32, x.toNat.testBit n = y.toNat.testBit n) : x = y := by
  apply UInt32.toNat_inj.mp
  apply Nat.eq_of_testBit_eq
  intro n
  by_cases hn : n < 32
  · exact h n hn
  · have hp : 2 ^ 32 ≤ 2 ^ n := Nat.pow_le_pow_right (by decide) (by omega)
    rw [Nat.testBit_lt_two_pow (Nat.lt_of_lt_of_le x.toNat_lt hp),
      Nat.testBit_lt_two_pow (Nat.lt_of_lt_of_le y.toNat_lt hp)]

theorem UInt32.testBit_not (w : UInt32) (n : Nat) :
    (~~~w).toNat.testBit n = (decide (n < 32) && !w.toNat.testBit n) := by
  have h : UInt32.size - 1 - w.toNat = 2 ^ 32 - (w.toNat + 1) := by
    simp only [UInt32.size]
    omega
  rw [UInt32.toNat_not, h, Nat.testBit_two_pow_sub_succ w.toNat_lt]

namespace Field

variable {f g : Field} {v w : UInt32} {n : Nat}

structure Fits (f : Field) : Prop where
  used : 0 < f.width.toNat
  narrow : f.width.toNat < 32
  within : f.position.toNat + f.width.toNat ≤ 32

def Covers (f : Field) (n : Nat) : Prop :=
  f.position.toNat ≤ n ∧ n < f.position.toNat + f.width.toNat

instance : Decidable (f.Covers n) := inferInstanceAs (Decidable (_ ∧ _))

/-- One word has the value, cut to the field's width, where the other has what it has. -/
structure Writes (f : Field) (word v word' : UInt32) : Prop where
  written : (f.get word').toNat = v.toNat % 2 ^ f.width.toNat
  kept : ∀ n, ¬ f.Covers n → word'.toNat.testBit n = word.toNat.testBit n

theorem opcode_fits : opcode.Fits := by constructor <;> decide
theorem a_fits : a.Fits := by constructor <;> decide
theorem b_fits : b.Fits := by constructor <;> decide
theorem c_fits : c.Fits := by constructor <;> decide
theorem bx_fits : bx.Fits := by constructor <;> decide
theorem ax_fits : ax.Fits := by constructor <;> decide

theorem covers_a : a.Covers n ↔ 6 ≤ n ∧ n < 14 := Iff.rfl
theorem covers_b : b.Covers n ↔ 23 ≤ n ∧ n < 32 := Iff.rfl
theorem covers_c : c.Covers n ↔ 14 ≤ n ∧ n < 23 := Iff.rfl

theorem Fits.position_lt (h : f.Fits) : f.position.toNat < 32 := by
  have hu := h.used
  have hw := h.within
  omega

theorem Fits.toNat_limit (h : f.Fits) : f.limit.toNat = 2 ^ f.width.toNat - 1 := by
  have hp : 2 ^ f.width.toNat < 2 ^ 32 := Nat.pow_lt_pow_right (by decide) h.narrow
  have h1 : ((1 : UInt32) <<< f.width).toNat = 2 ^ f.width.toNat := by
    rw [UInt32.toNat_shiftLeft, Nat.mod_eq_of_lt h.narrow, UInt32.toNat_one, Nat.one_shiftLeft,
      Nat.mod_eq_of_lt hp]
  have hle : (1 : UInt32) ≤ 1 <<< f.width := by
    rw [UInt32.le_iff_toNat_le, h1]
    exact Nat.one_le_two_pow
  rw [limit, UInt32.toNat_sub_of_le _ _ hle, h1, UInt32.toNat_one]

theorem Fits.toNat_and_limit (h : f.Fits) (v : UInt32) :
    (v &&& f.limit).toNat = v.toNat % 2 ^ f.width.toNat := by
  rw [UInt32.toNat_and, h.toNat_limit, Nat.and_two_pow_sub_one_eq_mod]

theorem Fits.toNat_get (h : f.Fits) (w : UInt32) :
    (f.get w).toNat = w.toNat >>> f.position.toNat % 2 ^ f.width.toNat := by
  rw [get, h.toNat_and_limit, UInt32.toNat_shiftRight, Nat.mod_eq_of_lt h.position_lt]

theorem Fits.get_lt (h : f.Fits) (w : UInt32) : (f.get w).toNat < 2 ^ f.width.toNat := by
  rw [h.toNat_get]
  exact Nat.mod_lt _ (Nat.two_pow_pos _)

theorem Fits.testBit_get (h : f.Fits) (w : UInt32) (n : Nat) :
    (f.get w).toNat.testBit n
      = (decide (n < f.width.toNat) && w.toNat.testBit (f.position.toNat + n)) := by
  rw [h.toNat_get, Nat.testBit_mod_two_pow, Nat.testBit_shiftRight]

theorem Fits.testBit_shiftLeft (h : f.Fits) (v : UInt32) (n : Nat) :
    ((v &&& f.limit) <<< f.position).toNat.testBit n
      = (decide (f.Covers n) && v.toNat.testBit (n - f.position.toNat)) := by
  have hp := h.position_lt
  have hw := h.within
  rw [UInt32.toNat_shiftLeft, Nat.mod_eq_of_lt hp, h.toNat_and_limit,
    Nat.testBit_mod_two_pow, Nat.testBit_shiftLeft, Nat.testBit_mod_two_pow]
  by_cases hc : f.Covers n
  · have hl := hc.1
    have hr := hc.2
    have h1 : n < 32 := by omega
    have h2 : n - f.position.toNat < f.width.toNat := by omega
    simp [hc, hl, h1, h2]
  · by_cases hn : f.position.toNat ≤ n
    · have h2 : ¬ n - f.position.toNat < f.width.toNat := fun h2 => hc ⟨hn, by omega⟩
      simp [hc, h2]
    · simp [hc, hn]

theorem Fits.testBit_place (h : f.Fits) (v : UInt32) (n : Nat) :
    (f.place v).toNat.testBit n
      = (decide (f.Covers n) && v.toNat.testBit (n - f.position.toNat)) :=
  h.testBit_shiftLeft v n

/-- What is read from a field and placed again is the word, cut to the field. -/
theorem Fits.testBit_place_get (h : f.Fits) (w : UInt32) (n : Nat) :
    (f.place (f.get w)).toNat.testBit n = (decide (f.Covers n) && w.toNat.testBit n) := by
  rw [h.testBit_place, h.testBit_get]
  by_cases hc : f.Covers n
  · have hl := hc.1
    have hr := hc.2
    have h1 : n - f.position.toNat < f.width.toNat := by omega
    rw [Nat.add_sub_of_le hl]
    simp [hc, h1]
  · simp [hc]

theorem get_or (f : Field) (v w : UInt32) : f.get (v ||| w) = f.get v ||| f.get w := by
  apply UInt32.toNat_inj.mp
  simp only [get, UInt32.toNat_and, UInt32.toNat_or, UInt32.toNat_shiftRight,
    Nat.shiftRight_or_distrib, Nat.and_or_distrib_right]

theorem Fits.get_place (h : f.Fits) (v : UInt32) :
    (f.get (f.place v)).toNat = v.toNat % 2 ^ f.width.toNat := by
  apply Nat.eq_of_testBit_eq
  intro n
  rw [h.testBit_get, h.testBit_place, Nat.testBit_mod_two_pow, Nat.add_sub_cancel_left]
  by_cases hn : n < f.width.toNat <;> simp [hn, Covers]

def Apart (f g : Field) : Prop :=
  f.position.toNat + f.width.toNat ≤ g.position.toNat
    ∨ g.position.toNat + g.width.toNat ≤ f.position.toNat

instance : Decidable (f.Apart g) := inferInstanceAs (Decidable (_ ∨ _))

theorem Fits.get_place_of_apart (h : f.Fits) (hg : g.Fits) (hfg : f.Apart g) (v : UInt32) :
    f.get (g.place v) = 0 := by
  apply UInt32.ext_testBit
  intro n _
  rw [h.testBit_get, hg.testBit_place, UInt32.toNat_zero, Nat.zero_testBit]
  by_cases hn : n < f.width.toNat
  · have hc : ¬ g.Covers (f.position.toNat + n) := by
      rintro ⟨hl, hr⟩
      unfold Apart at hfg
      omega
    simp [hc]
  · simp [hn]

theorem Fits.testBit_set (h : f.Fits) (w v : UInt32) (n : Nat) :
    (f.set w v).toNat.testBit n
      = if f.Covers n then v.toNat.testBit (n - f.position.toNat) else w.toNat.testBit n := by
  have hl : (f.limit <<< f.position).toNat.testBit n = decide (f.Covers n) := by
    have hs := h.testBit_shiftLeft f.limit n
    rw [UInt32.and_self] at hs
    rw [hs, h.toNat_limit, Nat.testBit_two_pow_sub_one]
    by_cases hc : f.Covers n
    · have hl := hc.1
      have hr := hc.2
      have h1 : n - f.position.toNat < f.width.toNat := by omega
      simp [hc, h1]
    · simp [hc]
  rw [set, UInt32.toNat_or, Nat.testBit_or, UInt32.toNat_and, Nat.testBit_and,
    UInt32.testBit_not, hl, h.testBit_place]
  by_cases hc : f.Covers n
  · simp [hc]
  · by_cases hn : n < 32
    · simp [hc, hn]
    · have hp : 2 ^ 32 ≤ 2 ^ n := Nat.pow_le_pow_right (by decide) (by omega)
      simp [hc, Nat.testBit_lt_two_pow (Nat.lt_of_lt_of_le w.toNat_lt hp)]

theorem Fits.writes_set (h : f.Fits) (w v : UInt32) : f.Writes w v (f.set w v) where
  written := by
    apply Nat.eq_of_testBit_eq
    intro n
    rw [h.testBit_get, h.testBit_set, Nat.testBit_mod_two_pow, Nat.add_sub_cancel_left]
    by_cases hn : n < f.width.toNat <;> simp [hn, Covers]
  kept n hn := by rw [h.testBit_set, if_neg hn]

end Field

namespace Opcode

@[simp] theorem ofNumber?_number (op : Opcode) : ofNumber? op.number = some op := by
  cases op <;> rfl

theorem number_lt (op : Opcode) : op.number < 47 := by
  cases op <;> decide

theorem number_of_ofNumber? {n : Nat} {op : Opcode} (h : ofNumber? n = some op) :
    op.number = n := by
  have hall : ∀ m : Fin 47, all[m].number = m := by decide
  obtain ⟨hn, hop⟩ := Array.getElem?_eq_some_iff.mp h
  rw [← hop]
  exact hall ⟨n, hn⟩

theorem toNat_number (op : Opcode) : (UInt32.ofNat op.number).toNat = op.number :=
  UInt32.toNat_ofNat_of_lt (Nat.lt_trans op.number_lt (by decide))

end Opcode

namespace Instruction

variable {op : Opcode} {i : Instruction}

def rebuilt (i : Instruction) (op : Opcode) : Instruction :=
  match op.layout with
  | .abc => ofABC op (UInt32.ofNat i.a) (UInt32.ofNat i.b) (UInt32.ofNat i.c)
  | .abx => ofABx op (UInt32.ofNat i.a) (UInt32.ofNat i.bx)
  | .asbx => ofAsBx op (UInt32.ofNat i.a) i.sbx
  | .ax => ofAx op (UInt32.ofNat i.ax)

structure RoundTrips : Prop where
  rebuilt : ∀ (i : Instruction) (op : Opcode), i.opcode? = some op → i.rebuilt op = i
  abc : ∀ (op : Opcode) (a b c : UInt32),
    a.toNat < 2 ^ 8 → b.toNat < 2 ^ 9 → c.toNat < 2 ^ 9 →
      (ofABC op a b c).opcode? = some op ∧ (ofABC op a b c).a = a.toNat
        ∧ (ofABC op a b c).b = b.toNat ∧ (ofABC op a b c).c = c.toNat
  abx : ∀ (op : Opcode) (a bx : UInt32), a.toNat < 2 ^ 8 → bx.toNat < 2 ^ 18 →
    (ofABx op a bx).opcode? = some op ∧ (ofABx op a bx).a = a.toNat
      ∧ (ofABx op a bx).bx = bx.toNat
  asbx : ∀ (op : Opcode) (a : UInt32) (sbx : Int),
    a.toNat < 2 ^ 8 → -131071 ≤ sbx → sbx ≤ 131072 →
      (ofAsBx op a sbx).opcode? = some op ∧ (ofAsBx op a sbx).a = a.toNat
        ∧ (ofAsBx op a sbx).sbx = sbx
  ax : ∀ (op : Opcode) (ax : UInt32), ax.toNat < 2 ^ 26 →
    (ofAx op ax).opcode? = some op ∧ (ofAx op ax).ax = ax.toNat
  setA : ∀ (i : Instruction) (v : UInt32), (i.setA v).a = v.toNat % 2 ^ 8
    ∧ ∀ n, n < 6 ∨ 14 ≤ n → (i.setA v).word.toNat.testBit n = i.word.toNat.testBit n
  setB : ∀ (i : Instruction) (v : UInt32), (i.setB v).b = v.toNat % 2 ^ 9
    ∧ ∀ n, n < 23 ∨ 32 ≤ n → (i.setB v).word.toNat.testBit n = i.word.toNat.testBit n
  setC : ∀ (i : Instruction) (v : UInt32), (i.setC v).c = v.toNat % 2 ^ 9
    ∧ ∀ n, n < 14 ∨ 23 ≤ n → (i.setC v).word.toNat.testBit n = i.word.toNat.testBit n

open LuaMachine.Field

theorem opcode?_of_get (h : Field.opcode.get i.word = UInt32.ofNat op.number) :
    i.opcode? = some op := by
  rw [opcode?, opcodeNumber, h, op.toNat_number, Opcode.ofNumber?_number]

theorem get_place_number (op : Opcode) :
    Field.opcode.get (Field.opcode.place (UInt32.ofNat op.number)) = UInt32.ofNat op.number := by
  apply UInt32.toNat_inj.mp
  rw [opcode_fits.get_place, op.toNat_number]
  exact Nat.mod_eq_of_lt (Nat.lt_trans op.number_lt (by decide))

theorem place_number (h : i.opcode? = some op) :
    Field.opcode.place (UInt32.ofNat op.number) = Field.opcode.place (Field.opcode.get i.word) := by
  rw [Opcode.number_of_ofNumber? h, opcodeNumber, UInt32.ofNat_toNat]

theorem ofABC_fields (op : Opcode) (a b c : UInt32) :
    (ofABC op a b c).opcode? = some op ∧ (ofABC op a b c).a = a.toNat % 2 ^ 8
      ∧ (ofABC op a b c).b = b.toNat % 2 ^ 9 ∧ (ofABC op a b c).c = c.toNat % 2 ^ 9 := by
  refine ⟨opcode?_of_get ?_, ?_, ?_, ?_⟩
  · simp only [ofABC, head, get_or, get_place_number,
      opcode_fits.get_place_of_apart a_fits (by decide),
      opcode_fits.get_place_of_apart b_fits (by decide),
      opcode_fits.get_place_of_apart c_fits (by decide), UInt32.or_zero]
  · simp only [Instruction.a, ofABC, head, get_or,
      a_fits.get_place_of_apart opcode_fits (by decide),
      a_fits.get_place_of_apart b_fits (by decide),
      a_fits.get_place_of_apart c_fits (by decide), UInt32.or_zero, UInt32.zero_or]
    exact a_fits.get_place a
  · simp only [Instruction.b, ofABC, head, get_or,
      b_fits.get_place_of_apart opcode_fits (by decide),
      b_fits.get_place_of_apart a_fits (by decide),
      b_fits.get_place_of_apart c_fits (by decide), UInt32.or_zero, UInt32.zero_or]
    exact b_fits.get_place b
  · simp only [Instruction.c, ofABC, head, get_or,
      c_fits.get_place_of_apart opcode_fits (by decide),
      c_fits.get_place_of_apart a_fits (by decide),
      c_fits.get_place_of_apart b_fits (by decide), UInt32.zero_or]
    exact c_fits.get_place c

theorem ofABx_fields (op : Opcode) (a bx : UInt32) :
    (ofABx op a bx).opcode? = some op ∧ (ofABx op a bx).a = a.toNat % 2 ^ 8
      ∧ (ofABx op a bx).bx = bx.toNat % 2 ^ 18 := by
  refine ⟨opcode?_of_get ?_, ?_, ?_⟩
  · simp only [ofABx, head, get_or, get_place_number,
      opcode_fits.get_place_of_apart a_fits (by decide),
      opcode_fits.get_place_of_apart bx_fits (by decide), UInt32.or_zero]
  · simp only [Instruction.a, ofABx, head, get_or,
      a_fits.get_place_of_apart opcode_fits (by decide),
      a_fits.get_place_of_apart bx_fits (by decide), UInt32.or_zero, UInt32.zero_or]
    exact a_fits.get_place a
  · simp only [Instruction.bx, ofABx, head, get_or,
      bx_fits.get_place_of_apart opcode_fits (by decide),
      bx_fits.get_place_of_apart a_fits (by decide), UInt32.zero_or]
    exact bx_fits.get_place bx

theorem ofAx_fields (op : Opcode) (ax : UInt32) :
    (ofAx op ax).opcode? = some op ∧ (ofAx op ax).ax = ax.toNat % 2 ^ 26 := by
  refine ⟨opcode?_of_get ?_, ?_⟩
  · simp only [ofAx, get_or, get_place_number,
      opcode_fits.get_place_of_apart ax_fits (by decide), UInt32.or_zero]
  · simp only [Instruction.ax, ofAx, get_or,
      ax_fits.get_place_of_apart opcode_fits (by decide), UInt32.zero_or]
    exact ax_fits.get_place ax

theorem toNat_excess {sbx : Int} (hl : -131071 ≤ sbx) (hr : sbx ≤ 131072) :
    ((Int32.ofInt (sbx + signedOffset)).toUInt32.toNat : Int) = sbx + signedOffset := by
  simp only [Int32.ofInt, ← UInt32.toNat_toBitVec, signedOffset]
  rw [BitVec.toNat_ofInt, Int.emod_eq_of_lt (by omega) (by omega)]
  exact Int.toNat_of_nonneg (by omega)

theorem sbx_range (i : Instruction) : -131071 ≤ i.sbx ∧ i.sbx ≤ 131072 := by
  have h := bx_fits.get_lt i.word
  have hp : 2 ^ Field.bx.width.toNat = 262144 := by decide
  simp only [sbx, bx, signedOffset]
  omega

theorem excess_sbx (i : Instruction) :
    (Int32.ofInt (i.sbx + signedOffset)).toUInt32 = UInt32.ofNat i.bx := by
  have h := toNat_excess i.sbx_range.1 i.sbx_range.2
  apply UInt32.toNat_inj.mp
  rw [sbx, Int.sub_add_cancel] at h
  rw [sbx, Int.sub_add_cancel, Int.ofNat_inj.mp h, bx, UInt32.ofNat_toNat]

theorem rebuilt_abx (h : i.opcode? = some op) :
    ofABx op (UInt32.ofNat i.a) (UInt32.ofNat i.bx) = i := by
  have hall : ∀ n < 32, Field.opcode.Covers n ∨ Field.a.Covers n ∨ Field.bx.Covers n := by decide
  apply congrArg Instruction.mk
  apply UInt32.ext_testBit
  intro n hn
  simp only [head, place_number h, Instruction.a, bx, UInt32.ofNat_toNat, UInt32.toNat_or,
    Nat.testBit_or, opcode_fits.testBit_place_get, a_fits.testBit_place_get,
    bx_fits.testBit_place_get]
  cases i.word.toNat.testBit n with
  | false => simp
  | true => simpa [or_assoc] using hall n hn

theorem rebuilt_abc (h : i.opcode? = some op) :
    ofABC op (UInt32.ofNat i.a) (UInt32.ofNat i.b) (UInt32.ofNat i.c) = i := by
  have hall : ∀ n < 32,
      Field.opcode.Covers n ∨ Field.a.Covers n ∨ Field.b.Covers n ∨ Field.c.Covers n := by decide
  apply congrArg Instruction.mk
  apply UInt32.ext_testBit
  intro n hn
  simp only [head, place_number h, Instruction.a, b, c, UInt32.ofNat_toNat, UInt32.toNat_or,
    Nat.testBit_or, opcode_fits.testBit_place_get, a_fits.testBit_place_get,
    b_fits.testBit_place_get, c_fits.testBit_place_get]
  cases i.word.toNat.testBit n with
  | false => simp
  | true => simpa [or_assoc] using hall n hn

theorem rebuilt_ax (h : i.opcode? = some op) : ofAx op (UInt32.ofNat i.ax) = i := by
  have hall : ∀ n < 32, Field.opcode.Covers n ∨ Field.ax.Covers n := by decide
  apply congrArg Instruction.mk
  apply UInt32.ext_testBit
  intro n hn
  simp only [place_number h, ax, UInt32.ofNat_toNat, UInt32.toNat_or, Nat.testBit_or,
    opcode_fits.testBit_place_get, ax_fits.testBit_place_get]
  cases i.word.toNat.testBit n with
  | false => simp
  | true => simpa [or_assoc] using hall n hn

theorem roundTrips : RoundTrips := by
  constructor
  case rebuilt =>
    intro i op h
    unfold rebuilt
    cases op.layout with
    | abc => exact rebuilt_abc h
    | abx => exact rebuilt_abx h
    | asbx =>
      simp only [ofAsBx, excess_sbx]
      exact rebuilt_abx h
    | ax => exact rebuilt_ax h
  case abc =>
    intro op a b c ha hb hc
    have h := ofABC_fields op a b c
    rwa [Nat.mod_eq_of_lt ha, Nat.mod_eq_of_lt hb, Nat.mod_eq_of_lt hc] at h
  case abx =>
    intro op a bx ha hbx
    have h := ofABx_fields op a bx
    rwa [Nat.mod_eq_of_lt ha, Nat.mod_eq_of_lt hbx] at h
  case asbx =>
    intro op a sbx ha hl hr
    have he := toNat_excess hl hr
    obtain ⟨hop, hfa, hfb⟩ := ofABx_fields op a (Int32.ofInt (sbx + signedOffset)).toUInt32
    have hlt : (Int32.ofInt (sbx + signedOffset)).toUInt32.toNat < 2 ^ 18 := by
      simp only [signedOffset] at he ⊢
      omega
    rw [Nat.mod_eq_of_lt ha] at hfa
    rw [Nat.mod_eq_of_lt hlt] at hfb
    refine ⟨hop, hfa, ?_⟩
    rw [Instruction.sbx, ofAsBx, hfb, he, Int.add_sub_cancel]
  case ax =>
    intro op ax hax
    have h := ofAx_fields op ax
    rwa [Nat.mod_eq_of_lt hax] at h
  case setA =>
    intro i v
    have h := a_fits.writes_set i.word v
    refine ⟨h.written, fun n hn => h.kept n ?_⟩
    rw [covers_a]
    omega
  case setB =>
    intro i v
    have h := b_fits.writes_set i.word v
    refine ⟨h.written, fun n hn => h.kept n ?_⟩
    rw [covers_b]
    omega
  case setC =>
    intro i v
    have h := c_fits.writes_set i.word v
    refine ⟨h.written, fun n hn => h.kept n ?_⟩
    rw [covers_c]
    omega

end Instruction
end LuaMachine
