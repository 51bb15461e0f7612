import LuaMachine.Operator
import LuaMachine.Proofs.Integer

namespace LuaMachine

namespace Operator

variable {a b : Int64} {z : Int}

def Gives (op : Operator) (a b : Int64) (z : Int) : Prop :=
  op.evaluate? (.int a) (.int b) = .ok (some (.int (Int64.ofInt z)))

theorem evaluate?_bits {op : Operator} (h : op.isBitwise) :
    op.evaluate? (.int a) (.int b) = .ok (some (.int (op.bits a b))) := if_pos h

theorem gives_bits {op : Operator} (h : op.isBitwise) (hz : op.bits a b = Int64.ofInt z) :
    op.Gives a b z := by
  rw [Gives, evaluate?_bits h, hz]

theorem gives_add : Gives .add a b (a.toInt + b.toInt) := by
  rw [Gives, Int64.ofInt_add, Int64.ofInt_toInt, Int64.ofInt_toInt]
  rfl

theorem gives_sub : Gives .sub a b (a.toInt - b.toInt) := by
  rw [Gives, Int64.ofInt_sub, Int64.ofInt_toInt, Int64.ofInt_toInt]
  rfl

theorem gives_mul : Gives .mul a b (a.toInt * b.toInt) := by
  rw [Gives, Int64.ofInt_mul, Int64.ofInt_toInt, Int64.ofInt_toInt]
  rfl

theorem gives_unm : Gives .unm a b (-a.toInt) := by
  rw [Gives, Int64.ofInt_neg, Int64.ofInt_toInt]
  rfl

theorem evaluate?_idiv (h : b ≠ 0) :
    evaluate? .idiv (.int a) (.int b) = .ok (some (.int (Integer.floorDiv a b))) := by
  change ((if b = 0 then Except.error ZeroDivisor.quotient else _).map Number.int).map _ = _
  rw [if_neg h]
  rfl

theorem evaluate?_mod (h : b ≠ 0) :
    evaluate? .mod (.int a) (.int b) = .ok (some (.int (Integer.floorMod a b))) := by
  change ((if b = 0 then Except.error ZeroDivisor.remainder else _).map Number.int).map _ = _
  rw [if_neg h]
  rfl

theorem evaluate?_idiv_zero :
    evaluate? .idiv (.int a) (.int 0) = .error .quotient := rfl

theorem evaluate?_mod_zero : evaluate? .mod (.int a) (.int 0) = .error .remainder := rfl

theorem evaluate?_ok {op : Operator} (h : op = .idiv ∨ op = .mod → b ≠ 0) :
    ∃ v, op.evaluate? (.int a) (.int b) = .ok (some v) := by
  cases op with
  | idiv => exact ⟨_, evaluate?_idiv (h (.inl rfl))⟩
  | mod => exact ⟨_, evaluate?_mod (h (.inr rfl))⟩
  | _ => exact ⟨_, rfl⟩

theorem evaluate?_error {op : Operator} {e : ZeroDivisor} :
    op.evaluate? (.int a) (.int b) = .error e ↔
      b = 0 ∧ (op = .idiv ∧ e = .quotient ∨ op = .mod ∧ e = .remainder) := by
  constructor
  · intro he
    by_cases h : op = .idiv ∨ op = .mod → b ≠ 0
    · obtain ⟨v, hv⟩ := evaluate?_ok (a := a) h
      cases hv.symm.trans he
    obtain ⟨hop, hb⟩ : (op = .idiv ∨ op = .mod) ∧ b = 0 := by simpa using h
    subst hb
    rcases hop with rfl | rfl
    · exact ⟨rfl, .inl ⟨rfl, (Except.error.inj (evaluate?_idiv_zero.symm.trans he)).symm⟩⟩
    · exact ⟨rfl, .inr ⟨rfl, (Except.error.inj (evaluate?_mod_zero.symm.trans he)).symm⟩⟩
  · rintro ⟨rfl, ⟨rfl, rfl⟩ | ⟨rfl, rfl⟩⟩
    · exact evaluate?_idiv_zero
    · exact evaluate?_mod_zero

/-- The quotient and the remainder of two integers, where no step on the way to them leaves the
64 bits. -/
structure Divides (a b q r : Int64) : Prop where
  quotient : evaluate? .idiv (.int a) (.int b) = .ok (some (.int q))
  remainder : evaluate? .mod (.int a) (.int b) = .ok (some (.int r))
  quotientSteps : Integer.floorDiv? a b = some q
  remainderSteps : Integer.floorMod? a b = some r
  floor : q = Int64.ofInt (a.toInt.fdiv b.toInt)
  rest : r.toInt = a.toInt - b.toInt * a.toInt.fdiv b.toInt
  below : 0 < b → 0 ≤ r ∧ r < b
  above : b < 0 → b < r ∧ r ≤ 0
  identity : q * b + r = a

structure EvaluatesIntegers (a b : Int64) : Prop where
  add : Gives .add a b (a.toInt + b.toInt)
  sub : Gives .sub a b (a.toInt - b.toInt)
  mul : Gives .mul a b (a.toInt * b.toInt)
  unm : Gives .unm a b (-a.toInt)
  band : Gives .band a b (a.toInt.land b.toInt)
  bor : Gives .bor a b (a.toInt.lor b.toInt)
  bxor : Gives .bxor a b (a.toInt.xor b.toInt)
  bnot : Gives .bnot a b a.toInt.lnot
  division : b ≠ 0 → ∃ q r, Divides a b q r
  shl : Gives .shl a b (Integer.shifted a b.toInt)
  shr : Gives .shr a b (Integer.shifted a (-b.toInt))
  /-- As many places as a word has, or more, leave nothing. -/
  far : 64 ≤ b.toInt.natAbs → Gives .shl a b 0 ∧ Gives .shr a b 0
  /-- No step of a shift leaves the 64 bits or shifts by more places than a word has. -/
  shiftSteps : ∃ l r, Integer.shiftLeft? a b = some l ∧ Integer.shiftLeft? a (-b) = some r ∧
    evaluate? .shl (.int a) (.int b) = .ok (some (.int l)) ∧
    evaluate? .shr (.int a) (.int b) = .ok (some (.int r))
  failure : ∀ op e, evaluate? op (.int a) (.int b) = .error e ↔
    b = 0 ∧ (op = .idiv ∧ e = .quotient ∨ op = .mod ∧ e = .remainder)

theorem divides (h : b ≠ 0) : Divides a b (Integer.floorDiv a b) (Integer.floorMod a b) where
  quotient := evaluate?_idiv h
  remainder := evaluate?_mod h
  quotientSteps := Integer.floorDiv?_eq h
  remainderSteps := Integer.floorMod?_eq h
  floor := Integer.floorDiv_eq h
  rest := by rw [Integer.toInt_floorMod h, Int.fmod_def]
  below hb := by
    rw [Int64.lt_iff_toInt_lt] at hb
    rw [Int64.le_iff_toInt_le, Int64.lt_iff_toInt_lt, Integer.toInt_floorMod h]
    exact ⟨Int.fmod_nonneg_of_pos _ hb, Int.fmod_lt_of_pos _ hb⟩
  above hb := by
    rw [Int64.lt_iff_toInt_lt] at hb
    rw [Int64.le_iff_toInt_le, Int64.lt_iff_toInt_lt, Integer.toInt_floorMod h]
    have hn := Int.neg_fmod_neg a.toInt b.toInt
    have hl := Int.fmod_nonneg_of_pos (-a.toInt) (Int.neg_pos_of_neg hb)
    have hu := Int.fmod_lt_of_pos (-a.toInt) (Int.neg_pos_of_neg hb)
    rw [Int64.toInt_zero]
    omega
  identity := calc
    Integer.floorDiv a b * b + Integer.floorMod a b
    _ = Int64.ofInt (a.toInt.fdiv b.toInt) * Int64.ofInt b.toInt +
        Int64.ofInt (a.toInt.fmod b.toInt) := by
      rw [Integer.floorDiv_eq h, Int64.ofInt_toInt b, ← Integer.toInt_floorMod h,
        Int64.ofInt_toInt]
    _ = Int64.ofInt (a.toInt.fdiv b.toInt * b.toInt + a.toInt.fmod b.toInt) := by
      rw [Int64.ofInt_add, Int64.ofInt_mul]
    _ = a := by rw [Int.fdiv_mul_add_fmod, Int64.ofInt_toInt]

/-- Operators on integers are exact modulo `2 ^ 64`, and fail on a division by zero only. -/
theorem evaluatesIntegers (a b : Int64) : EvaluatesIntegers a b where
  add := gives_add
  sub := gives_sub
  mul := gives_mul
  unm := gives_unm
  band := gives_bits rfl Integer.and_eq
  bor := gives_bits rfl Integer.or_eq
  bxor := gives_bits rfl Integer.xor_eq
  bnot := gives_bits rfl Integer.not_eq
  division h := ⟨_, _, divides h⟩
  shl := gives_bits rfl Integer.shiftLeft_eq
  shr := gives_bits rfl Integer.shiftRight_eq
  far h := by
    refine ⟨gives_bits rfl ?_, gives_bits rfl ?_⟩
    · exact Integer.shiftLeft_eq.trans (Integer.ofInt_shifted_far h)
    · exact Integer.shiftRight_eq.trans (Integer.ofInt_shifted_far (by omega))
  shiftSteps := ⟨_, _, Integer.shiftLeft?_eq, Integer.shiftLeft?_eq, rfl, rfl⟩
  failure _ _ := evaluate?_error

end Operator
end LuaMachine
