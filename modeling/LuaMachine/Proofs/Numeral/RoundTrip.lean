import LuaMachine.Metamethod.Operator
import LuaMachine.Proofs.Numeral.Text
import LuaMachine.Proofs.Operator
import LuaMachine.Proofs.Run

namespace LuaMachine

open Text

namespace Text

theorem isDigit_decimal (n : Nat) : ∀ c ∈ decimal n, c.isDigit = true := fun _ =>
  Nat.isDigit_of_mem_toDigits (by decide) (by decide)

theorem map_decimal_ne_nil (n : Nat) : (decimal n).map byte ≠ [] := by
  rw [Ne, List.map_eq_nil_iff]
  exact List.ne_nil_of_length_pos Nat.length_toDigits_pos

theorem decimalValue_decimal (n : Nat) : decimalValue (decimal n) = n := by
  have h : decimalValue (decimal n) = Nat.ofDigitChars 10 (Nat.toDigits 10 n) 0 := by
    rw [Nat.ofDigitChars_eq_foldl, decimalValue]
    simp only [Nat.mul_comm]
    rfl
  rw [h, Nat.ofDigitChars_ten_toDigits]

end Text

namespace Numeral

def Sign.ofInt (i : Int) : Sign := if i < 0 then minus else absent

theorem Sign.withSign_ofInt (i : Int) : Integer.withSign (ofInt i).isMinus i.natAbs = i := by
  rw [ofInt]
  split
  · change -(i.natAbs : Int) = i
    omega
  · change (i.natAbs : Int) = i
    omega

theorem signedDecimal_eq (i : Int) : signedDecimal i = (Sign.ofInt i).chars ++ decimal i.natAbs := by
  rw [signedDecimal, Sign.ofInt]
  split <;> rfl

theorem toNat_signedDecimal (i : Int) : ∀ c ∈ signedDecimal i, c.toNat < 0x80 := by
  rw [signedDecimal_eq, List.forall_mem_append]
  constructor
  · intro c hc
    obtain rfl | rfl := Sign.mem_chars hc <;> decide
  · intro c hc
    have := toNat_of_isDigit (isDigit_decimal _ c hc)
    omega

theorem ofString_signedDecimal (i : Int) : Bytes.ofString (String.ofList (signedDecimal i)) =
    (Sign.ofInt i).text ++ (decimal i.natAbs).map byte := by
  rw [Bytes.ofString, String.toList_ofList, flatMap_ascii (toNat_signedDecimal i), signedDecimal_eq,
    List.map_append, Sign.map_byte_chars]

theorem exists_spells_decimal (i : Int) : ∃ values,
    Spells 10 ((decimal i.natAbs).map byte) values ∧ positional 10 (Sign.ofInt i) values = i := by
  obtain ⟨values, hs, hv⟩ := exists_spells_digits (isDigit_decimal i.natAbs)
  refine ⟨values, hs, ?_⟩
  rw [positional, hv, decimalValue_decimal, Sign.withSign_ofInt]

end Numeral

namespace Number

variable {i j : Int64} {s t : Bytes}

/-- The text of an integer does what the integer does. -/
structure ReadsBack (i : Int64) (s : Bytes) : Prop where
  shown : (Value.int i).toBytes? = some s
  read : Numeral.read s = some (.int i)
  based : Numeral.readBase 10 s = some i
  /-- No other integer has this text. -/
  distinct : ∀ j, (Value.int j).toBytes? = some s → j = i
  evaluatesLeft : ∀ op b, Operator.evaluate? op (.string s) b = Operator.evaluate? op (.int i) b
  evaluatesRight : ∀ op a, Operator.evaluate? op a (.string s) = Operator.evaluate? op a (.int i)
  /-- Only a metamethod can tell the two, being given the operand as it is. -/
  appliesLeft : ∀ re op b m, (Operator.evaluate? op (.int i) b = .ok none →
      Exec.callBinary? re (.string s) b op.event m = Exec.callBinary? re (.int i) b op.event m) →
    Exec.arith re op (.string s) b m = Exec.arith re op (.int i) b m
  appliesRight : ∀ re op a m, (Operator.evaluate? op a (.int i) = .ok none →
      Exec.callBinary? re a (.string s) op.event m = Exec.callBinary? re a (.int i) op.event m) →
    Exec.arith re op a (.string s) m = Exec.arith re op a (.int i) m
  unhandled : ∀ re op b (m : Machine), (∀ v ∈ [.string s, .int i, b], m.handler v op.event = .nil) →
    Exec.arith re op (.string s) b m = Exec.arith re op (.int i) b m ∧
    Exec.arith re op b (.string s) m = Exec.arith re op b (.int i) m
  /-- Nothing is left to a metamethod where both operands are texts of integers. -/
  appliesBoth : ∀ re op j t, (Value.int j).toBytes? = some t →
    Exec.arith re op (.string s) (.string t) = Exec.arith re op (.int i) (.int j)

theorem toBytes?_int (i : Int64) : (Value.int i).toBytes? =
    some ((Numeral.Sign.ofInt i.toInt).text ++ (decimal i.toInt.natAbs).map byte) :=
  congrArg some (Numeral.ofString_signedDecimal i.toInt)

theorem read_text (h : (Value.int i).toBytes? = some s) : Numeral.read s = some (.int i) := by
  cases (toBytes?_int i).symm.trans h
  obtain ⟨values, hs, hv⟩ := Numeral.exists_spells_decimal i.toInt
  rw [Numeral.read_decimal _ (map_decimal_ne_nil _) hs, hv, Integer.ofInt?_toInt]

theorem readBase_text (h : (Value.int i).toBytes? = some s) : Numeral.readBase 10 s = some i := by
  cases (toBytes?_int i).symm.trans h
  obtain ⟨values, hs, hv⟩ := Numeral.exists_spells_decimal i.toInt
  rw [Numeral.readBase_signed 10 _ (map_decimal_ne_nil _) hs.bare,
    Numeral.mapM_digit?_eq_some_iff.mpr hs, Option.map_some, hv, Int64.ofInt_toInt]

section Operands

variable {re : Reentry} {m : Machine} {op : Operator} {a a' b b' : Value}

theorem evaluate?_congr (ha : a.toNumber? = a'.toNumber?) (hb : b.toNumber? = b'.toNumber?) :
    op.evaluate? a b = op.evaluate? a' b' := by
  rw [Operator.evaluate?, Operator.evaluate?, Value.toInt64?, Value.toInt64?, Value.toInt64?,
    Value.toInt64?, ha, hb]

theorem evaluate?_ints_ne_none : op.evaluate? (.int i) (.int j) ≠ .ok none := by
  intro h
  by_cases hd : op = .idiv ∨ op = .mod → j ≠ 0
  · obtain ⟨v, hv⟩ := Operator.evaluate?_ok (a := i) hd
    cases hv.symm.trans h
  · obtain ⟨hop, rfl⟩ : (op = .idiv ∨ op = .mod) ∧ j = 0 := by simpa using hd
    obtain rfl | rfl := hop <;> cases h

theorem arith_congr (ha : a.toNumber? = a'.toNumber?) (hb : b.toNumber? = b'.toNumber?)
    (hc : op.evaluate? a' b' = .ok none →
      Exec.callBinary? re a b op.event m = Exec.callBinary? re a' b' op.event m ∧
        Exec.operandFault op a b = Exec.operandFault op a' b') :
    Exec.arith re op a b m = Exec.arith re op a' b' m := by
  rw [Exec.arith, Exec.arith, evaluate?_congr ha hb]
  cases he : op.evaluate? a' b' with
  | error => rfl
  | ok v =>
    cases v with
    | some v => rfl
    | none =>
      obtain ⟨hm, hf⟩ := hc he
      simp only [Exec.run_bind, hm, hf]

theorem callBinary?_unhandled {e : Event} (ha : m.handler a e = .nil) (hb : m.handler b e = .nil) :
    Exec.callBinary? re a b e m = .done none m := by
  simp [Exec.callBinary?, ha, hb, show Value.nil.isNil = true from rfl]

variable {n : Number}

theorem operandFault_left (ha : a.toNumber? = some n) (ha' : a'.toNumber? = some n) :
    Exec.operandFault op a b = Exec.operandFault op a' b := by
  rw [Exec.operandFault, Exec.operandFault, ha, ha']
  rfl

theorem operandFault_right (hb : b.toNumber? = some n) (hb' : b'.toNumber? = some n)
    (he : op.evaluate? a b' = .ok none) : Exec.operandFault op a b = Exec.operandFault op a b' := by
  rw [Exec.operandFault, Exec.operandFault, hb, hb']
  cases ha : a.toNumber? with
  | none => rfl
  | some x =>
    by_cases hop : op.isBitwise = true
    · simp only [hop, if_true, Option.isSome_some, Bool.and_self]
    · rw [Operator.evaluate?, if_neg hop, ha, hb'] at he
      dsimp only at he
      cases hx : op.numbers x n <;> rw [hx] at he <;> cases he

theorem arith_left (ha : a.toNumber? = some n) (ha' : a'.toNumber? = some n)
    (hc : op.evaluate? a' b = .ok none →
      Exec.callBinary? re a b op.event m = Exec.callBinary? re a' b op.event m) :
    Exec.arith re op a b m = Exec.arith re op a' b m :=
  arith_congr (ha.trans ha'.symm) rfl fun he => ⟨hc he, operandFault_left ha ha'⟩

theorem arith_right (hb : b.toNumber? = some n) (hb' : b'.toNumber? = some n)
    (hc : op.evaluate? a b' = .ok none →
      Exec.callBinary? re a b op.event m = Exec.callBinary? re a b' op.event m) :
    Exec.arith re op a b m = Exec.arith re op a b' m :=
  arith_congr rfl (hb.trans hb'.symm) fun he => ⟨hc he, operandFault_right hb hb' he⟩

end Operands

theorem readsBack (i : Int64) : ∃ s, ReadsBack i s := by
  have hs := toBytes?_int i
  generalize (Numeral.Sign.ofInt i.toInt).text ++ _ = s at hs
  have hr : (Value.string s).toNumber? = some (.int i) := read_text hs
  have hi : (Value.int i).toNumber? = some (.int i) := rfl
  refine ⟨s, {
    shown := hs
    read := read_text hs
    based := readBase_text hs
    distinct := ?distinct
    evaluatesLeft := fun op b => evaluate?_congr hr rfl
    evaluatesRight := fun op a => evaluate?_congr rfl hr
    appliesLeft := fun re op b m => arith_left hr hi
    appliesRight := fun re op a m => arith_right hr hi
    unhandled := ?unhandled
    appliesBoth := ?both }⟩
  case distinct =>
    intro j hj
    exact Option.some.inj ((readBase_text hj).symm.trans (readBase_text hs))
  case unhandled =>
    intro re op b m hn
    obtain ⟨hs, hi', hb⟩ : _ ∧ _ ∧ m.handler b op.event = .nil := by simpa using hn
    constructor
    · exact arith_left hr hi fun _ => by
        rw [callBinary?_unhandled hs hb, callBinary?_unhandled hi' hb]
    · exact arith_right hr hi fun _ => by
        rw [callBinary?_unhandled hb hs, callBinary?_unhandled hb hi']
  case both =>
    intro re op j t ht
    funext m
    exact arith_congr hr (read_text ht) fun he => absurd he evaluate?_ints_ne_none

example : Numeral.readBase 10 (Bytes.ofString "-9223372036854775808") = some Int64.minValue := by
  decide

end Number
end LuaMachine
