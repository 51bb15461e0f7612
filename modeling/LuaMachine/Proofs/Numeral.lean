import LuaMachine.Numeral
import LuaMachine.Proofs.Integer
import LuaMachine.Text.Utf8.Lemmas
import Mathlib.Data.Nat.Digits.Defs
import Mathlib.Data.List.Forall2
import Mathlib.Data.List.TakeWhile

namespace LuaMachine

open Text

namespace Text

variable {α : Type} {p : α → Bool} {xs : List α} {c : Char} {d base : Nat}

theorem trim_eq_self (h : ∀ x ∈ xs, p x = false) : trim p xs = xs := by
  have hd {ys : List α} (hy : ∀ y ∈ ys, p y = false) : ys.dropWhile p = ys := by
    cases ys with
    | nil => rfl
    | cons y ys => rw [List.dropWhile_cons, hy y List.mem_cons_self, if_neg Bool.false_ne_true]
  rw [trim, hd h, hd fun x hx => h x (List.mem_reverse.mp hx), List.reverse_reverse]

theorem toNat_of_digitValue? (h : digitValue? c = some d) :
    (48 ≤ c.toNat ∧ c.toNat ≤ 57 ∧ d = c.toNat - 48) ∨
      (97 ≤ c.toNat ∧ c.toNat ≤ 122 ∧ d = c.toNat - 87) ∨
      65 ≤ c.toNat ∧ c.toNat ≤ 90 ∧ d = c.toNat - 55 := by
  have hle (a b : Char) : a ≤ b ↔ a.toNat ≤ b.toNat := Iff.rfl
  unfold digitValue? at h
  simp only [hle] at h
  split at h
  · next hc =>
    cases h
    exact .inl ⟨hc.1, hc.2, rfl⟩
  · split at h
    · next hc =>
      cases h
      have hl : 97 ≤ c.toNat := hc.1
      refine .inr (.inl ⟨hl, hc.2, ?_⟩)
      change c.toNat - 97 + 10 = _
      omega
    · split at h
      · next hc =>
        cases h
        have hl : 65 ≤ c.toNat := hc.1
        refine .inr (.inr ⟨hl, hc.2, ?_⟩)
        change c.toNat - 65 + 10 = _
        omega
      · cases h

theorem digit?_eq_some_iff : digit? base c = some d ↔ digitValue? c = some d ∧ d < base := by
  rw [digit?, Option.filter_eq_some_iff, decide_eq_true_eq]

end Text

namespace Numeral

inductive Sign where
  | absent
  | plus
  | minus
deriving DecidableEq

namespace Sign

def text : Sign → Bytes
  | absent => []
  | plus => [0x2B]
  | minus => [0x2D]

def isMinus (s : Sign) : Bool := s = minus

end Sign

def character (b : UInt8) : Char := Char.ofNat b.toNat

def Spells (base : Nat) (text : Bytes) (values : List Nat) : Prop :=
  List.Forall₂ (fun b d => digitValue? (character b) = some d ∧ d < base) text values

def positional (base : Nat) (sign : Sign) (values : List Nat) : Int :=
  Integer.withSign sign.isMinus (Nat.ofDigits base values.reverse)

variable {base : Nat} {text : Bytes} {values : List Nat} {sign : Sign} {b : UInt8}

theorem toNat_character (b : UInt8) : (character b).toNat = b.toNat := by
  have hb := b.toNat_lt
  rw [character, Char.ofNat, dif_pos (Or.inl (by omega))]
  rfl

theorem mapM_digit?_eq_some_iff :
    (text.map character).mapM (digit? base) = some values ↔ Spells base text values := by
  rw [Spells]
  induction text generalizing values with
  | nil => simp [eq_comm]
  | cons b text ih =>
    rw [List.map_cons, List.mapM_cons]
    constructor
    · intro h
      obtain ⟨d, hd, h⟩ := Option.bind_eq_some_iff.mp h
      obtain ⟨ds, hds, h⟩ := Option.bind_eq_some_iff.mp h
      cases h
      exact .cons (digit?_eq_some_iff.mp hd) (ih.mp hds)
    · intro h
      cases h with
      | cons hd hds =>
        rw [digit?_eq_some_iff.mpr hd, ih.mpr hds]
        rfl

theorem exists_spells_iff : (∃ values, Spells base text values) ↔
    ∀ b ∈ text, ∃ d, digitValue? (character b) = some d ∧ d < base := by
  induction text with
  | nil => exact ⟨fun _ => nofun, fun _ => ⟨[], .nil⟩⟩
  | cons b text ih =>
    rw [List.forall_mem_cons, ← ih]
    constructor
    · rintro ⟨values, h⟩
      cases h with
      | cons hd hds => exact ⟨⟨_, hd⟩, _, hds⟩
    · rintro ⟨⟨d, hd⟩, values, hds⟩
      exact ⟨d :: values, .cons hd hds⟩

theorem foldl_eq_ofDigits (base : Nat) (values : List Nat) :
    values.foldl (fun n d => n * base + d) 0 = Nat.ofDigits base values.reverse := by
  rw [Nat.ofDigits_eq_foldr, List.foldr_reverse]
  exact congrArg (fun f => values.foldl f 0) (funext fun n => funext fun d => by
    rw [Nat.cast_id, Nat.mul_comm, Nat.add_comm])

theorem foldl_int64 (base : Nat) (values : List Nat) (n : Nat) :
    values.foldl (fun n d => n * Int64.ofNat base + Int64.ofNat d) (Int64.ofNat n) =
      Int64.ofNat (values.foldl (fun n d => n * base + d) n) :=
  List.foldl_hom Int64.ofNat fun n d => by rw [Int64.ofNat_add, Int64.ofNat_mul]

theorem foldl_uint64 (values : List Nat) (n : Nat) :
    values.foldl (fun n d => n * 16 + UInt64.ofNat d) (UInt64.ofNat n) =
      UInt64.ofNat (values.foldl (fun n d => n * 16 + d) n) :=
  List.foldl_hom UInt64.ofNat fun n d => by
    rw [UInt64.ofNat_add, UInt64.ofNat_mul]
    rfl

theorem ofInt_withSign (negative : Bool) (n : Nat) :
    (if negative then -Int64.ofNat n else Int64.ofNat n) = Int64.ofInt (Integer.withSign negative n) := by
  cases negative with
  | false => rfl
  | true => exact (Int64.ofInt_neg n).symm

def Bare (text : Bytes) : Prop := ∀ b ∈ text, isAsciiBlank b = false ∧ b ≠ 0x2B ∧ b ≠ 0x2D

theorem Spells.forall_mem (h : Spells base text values) {P : UInt8 → Prop}
    (hP : ∀ b d, digitValue? (character b) = some d → d < base → P b) : ∀ b ∈ text, P b := by
  intro b hb
  obtain ⟨d, hd, hlt⟩ := exists_spells_iff.mp ⟨values, h⟩ b hb
  exact hP b d hd hlt

theorem Spells.bare (h : Spells base text values) : Bare text := by
  refine h.forall_mem fun b d hd _ => ?_
  have hr := toNat_of_digitValue? hd
  rw [toNat_character] at hr
  have hne (n : UInt8) (hn : n.toNat < 48) : b ≠ n := fun h => by
    subst h
    omega
  refine ⟨?_, hne _ (by decide), hne _ (by decide)⟩
  simp only [isAsciiBlank, Bool.or_eq_false_iff, beq_eq_false_iff_ne]
  exact ⟨⟨⟨⟨hne _ (by decide), hne _ (by decide)⟩, hne _ (by decide)⟩, hne _ (by decide)⟩,
    hne _ (by decide)⟩

theorem splitSign_signed (sign : Sign) (h : Bare text) :
    splitSign ((sign.text ++ text).map character) = (sign.isMinus, text.map character) := by
  cases sign with
  | plus | minus => rfl
  | absent =>
    cases text with
    | nil => rfl
    | cons b text =>
      obtain ⟨-, hp, hm⟩ := h b List.mem_cons_self
      have hc (n : UInt8) (hn : b ≠ n) : character b ≠ character n := fun he => hn <| by
        rw [← UInt8.toNat_inj, ← toNat_character, ← toNat_character, he]
      change splitSign (character b :: _) = _
      unfold splitSign
      split
      · next he => exact absurd (List.cons.inj he).1 (hc 0x2D hm)
      · next he => exact absurd (List.cons.inj he).1 (hc 0x2B hp)
      · rfl

theorem isAsciiBlank_signed (sign : Sign) (h : Bare text) :
    ∀ b ∈ sign.text ++ text, isAsciiBlank b = false := by
  intro b hb
  obtain hs | ht := List.mem_append.mp hb
  · cases sign <;> simp [Sign.text] at hs <;> subst hs <;> rfl
  · exact (h b ht).1

theorem trim_signed (sign : Sign) (h : Bare text) :
    trim isAsciiBlank (sign.text ++ text) = sign.text ++ text :=
  trim_eq_self (isAsciiBlank_signed sign h)

theorem readBase_signed (base : Nat) (sign : Sign) (hn : text ≠ []) (h : Bare text) :
    readBase base (sign.text ++ text) =
      ((text.map character).mapM (digit? base)).map fun values =>
        Int64.ofInt (positional base sign values) := by
  have hc : (fun b : UInt8 => Char.ofNat b.toNat) = character := rfl
  have he : (text.map character).isEmpty = false := by
    cases text with
    | nil => exact absurd rfl hn
    | cons b text => rfl
  -- nothing is trimmed, and the sign is taken off: what is left is the fold over the digits
  rw [readBase, trim_signed sign h, hc, splitSign_signed sign h]
  dsimp only
  rw [he, if_neg Bool.false_ne_true]
  refine congrArg (Option.map · _) (funext fun values => ?_)
  have hf := foldl_int64 base values 0
  rw [foldl_eq_ofDigits] at hf
  rw [positional, ← ofInt_withSign, ← hf]
  rfl

theorem decode?_ascii (h : ∀ b ∈ text, b.toNat < 0x80) :
    Utf8.decode? text = some (text.map character) := by
  rw [Utf8.decode?, Utf8.scalars_of_ascii text h]
  clear h
  induction text with
  | nil => rfl
  | cons b text ih =>
    rw [List.map_cons, List.mapM_cons, ih]
    rfl

theorem isWhiteSpace_character (h : b.toNat < 0x80) (hb : ¬(0x09 ≤ b.toNat ∧ b.toNat ≤ 0x0D))
    (hs : b.toNat ≠ 0x20) : isWhiteSpace (character b) = false := by
  simp only [isWhiteSpace, toNat_character, Bool.or_eq_false_iff, Bool.and_eq_false_iff,
    decide_eq_false_iff_not, beq_eq_false_iff_ne]
  omega

theorem read_signed (sign : Sign) (h : Bare text)
    (ha : ∀ b ∈ text, 0x20 < b.toNat ∧ b.toNat < 0x80) :
    read (sign.text ++ text) = if isHexPrefixed (text.map character)
      then readHex sign.isMinus ((text.map character).drop 2)
      else readDecimal sign.isMinus (text.map character) := by
  have hs : ∀ b ∈ sign.text ++ text, 0x20 < b.toNat ∧ b.toNat < 0x80 := by
    intro b hb
    obtain hs | ht := List.mem_append.mp hb
    · cases sign <;> simp [Sign.text] at hs <;> subst hs <;> decide
    · exact ha b ht
  have ht : trim isWhiteSpace ((sign.text ++ text).map character) =
      (sign.text ++ text).map character := by
    refine trim_eq_self fun c hc => ?_
    obtain ⟨b, hb, rfl⟩ := List.mem_map.mp hc
    have := hs b hb
    exact isWhiteSpace_character this.2 (by omega) (by omega)
  rw [read, decode?_ascii fun b hb => (hs b hb).2]
  dsimp only
  rw [ht, splitSign_signed sign h]

theorem Spells.visible (h : Spells base text values) : ∀ b ∈ text, 0x20 < b.toNat ∧ b.toNat < 0x80 :=
  h.forall_mem fun b d hd _ => by
    have hr := toNat_of_digitValue? hd
    rw [toNat_character] at hr
    omega

theorem Spells.isDigit (h : Spells 10 text values) :
    ∀ c ∈ text.map character, c.isDigit = true := by
  intro c hc
  obtain ⟨b, hb, rfl⟩ := List.mem_map.mp hc
  -- what is known of a digit is carried over to each byte of the text
  revert b
  refine h.forall_mem (P := fun b => _ → (character b).isDigit = true) fun b d hd hlt _ => ?_
  have hr := toNat_of_digitValue? hd
  rw [Char.isDigit, Bool.and_eq_true, decide_eq_true_eq, decide_eq_true_eq]
  exact ⟨show 48 ≤ (character b).toNat by omega, show (character b).toNat ≤ 57 by omega⟩

theorem Spells.decimalValue (h : Spells 10 text values) :
    Text.decimalValue (text.map character) = Nat.ofDigits 10 values.reverse := by
  rw [← foldl_eq_ofDigits, Text.decimalValue, List.foldl_map]
  generalize 0 = n
  induction h generalizing n with
  | nil => rfl
  | @cons b d text values hd h ih =>
    have hr := toNat_of_digitValue? hd.1
    have he : (character b).toNat - '0'.toNat = d := by
      have := hd.2
      change (character b).toNat - 48 = d
      omega
    rw [List.foldl_cons, List.foldl_cons, he]
    exact ih _

theorem decimal?_digits (negative : Bool) {cs : List Char} (hn : cs ≠ [])
    (h : ∀ c ∈ cs, c.isDigit = true) :
    decimal? negative cs = some (Double.ofDecimal negative (decimalValue cs) 0) := by
  -- there is no exponent and no point, so that the mantissa is all there is
  have hm : ∀ c ∈ cs, (!(decide (c = 'e') || decide (c = 'E'))) = true := by
    intro c hc
    have hd := h c hc
    by_contra he
    obtain rfl | rfl : c = 'e' ∨ c = 'E' := or_iff_not_imp_left.mpr (by simpa using he)
    · exact absurd hd (by decide)
    · exact absurd hd (by decide)
  have hx : mantissa? cs = some (decimalValue cs, 0) := by
    have he : cs.isEmpty = false := List.isEmpty_eq_false_iff.mpr hn
    rw [mantissa?, List.dropWhile_eq_nil_iff.mpr h, List.takeWhile_eq_self_iff.mpr h]
    dsimp only
    rw [List.append_nil, he, if_neg Bool.false_ne_true]
    rfl
  rw [decimal?, List.dropWhile_eq_nil_iff.mpr hm, List.takeWhile_eq_self_iff.mpr hm, hx]
  rfl

theorem readDecimal_digits (negative : Bool) {cs : List Char} (hn : cs ≠ [])
    (h : ∀ c ∈ cs, c.isDigit = true) :
    readDecimal negative cs = some (match Integer.ofInt? (Integer.withSign negative (decimalValue cs)) with
      | some i => .int i
      | none => .float (Double.ofDecimal negative (decimalValue cs) 0)) := by
  have he : cs.isEmpty = false := List.isEmpty_eq_false_iff.mpr hn
  have ha : cs.all Char.isDigit = true := List.all_eq_true.mpr h
  rw [readDecimal, he, ha, if_pos (show (!false && true) = true from rfl),
    decimal?_digits negative hn h]
  cases Integer.ofInt? (Integer.withSign negative (decimalValue cs)) <;> rfl

theorem isHexPrefixed_digits {cs : List Char} (h : ∀ c ∈ cs, c.isDigit = true) :
    isHexPrefixed cs = false := by
  unfold isHexPrefixed
  split
  · next c rest =>
    have hc := h c (by simp)
    rw [Bool.or_eq_false_iff, decide_eq_false_iff_not, decide_eq_false_iff_not]
    constructor <;> rintro rfl <;> exact absurd hc (by decide)
  · rfl

theorem read_decimal (sign : Sign) (hn : text ≠ []) (h : Spells 10 text values) :
    read (sign.text ++ text) = some (match Integer.ofInt? (positional 10 sign values) with
      | some i => .int i
      | none => .float (Double.ofDecimal sign.isMinus (Nat.ofDigits 10 values.reverse) 0)) := by
  have hc : text.map character ≠ [] := fun he => hn (List.map_eq_nil_iff.mp he)
  rw [read_signed sign h.bare h.visible, isHexPrefixed_digits h.isDigit,
    if_neg Bool.false_ne_true, readDecimal_digits _ hc h.isDigit, h.decimalValue]
  rfl

theorem Spells.not_point (h : Spells 16 text values) :
    ((text.map character).any fun c => c = '.' || isHexMark c) = false := by
  rw [List.any_eq_false]
  intro c hc
  obtain ⟨b, hb, rfl⟩ := List.mem_map.mp hc
  revert b
  refine h.forall_mem (P := fun b => _ → ¬_) fun b d hd hlt _ he => ?_
  have hr := toNat_of_digitValue? hd
  have hp : character b = '.' ∨ character b = 'p' ∨ character b = 'P' := by
    simpa [isHexMark] using he
  have hn : (character b).toNat = 46 ∨ (character b).toNat = 112 ∨ (character b).toNat = 80 :=
    hp.imp (congrArg Char.toNat) (Or.imp (congrArg Char.toNat) (congrArg Char.toNat))
  omega

theorem read_hexadecimal (sign : Sign) {x : UInt8} (hx : x = 0x78 ∨ x = 0x58) (hn : text ≠ [])
    (h : Spells 16 text values) : read (sign.text ++ 0x30 :: x :: text) =
      some (.int (Int64.ofInt (positional 16 sign values))) := by
  have hb : Bare (0x30 :: x :: text) :=
    List.forall_mem_cons.mpr ⟨by decide, List.forall_mem_cons.mpr
      ⟨by obtain rfl | rfl := hx <;> decide, h.bare⟩⟩
  have hv : ∀ b ∈ 0x30 :: x :: text, 0x20 < b.toNat ∧ b.toNat < 0x80 :=
    List.forall_mem_cons.mpr ⟨by decide, List.forall_mem_cons.mpr
      ⟨by obtain rfl | rfl := hx <;> decide, h.visible⟩⟩
  have hp : isHexPrefixed ((0x30 :: x :: text).map character) = true := by
    obtain rfl | rfl := hx <;> rfl
  have he : (text.map character).isEmpty = false :=
    List.isEmpty_eq_false_iff.mpr fun he => hn (List.map_eq_nil_iff.mp he)
  rw [read_signed sign hb hv, if_pos hp]
  change readHex sign.isMinus (text.map character) = _
  rw [readHex, he, if_neg Bool.false_ne_true, h.not_point, if_neg Bool.false_ne_true, hexInteger?,
    mapM_digit?_eq_some_iff.mpr h]
  have hf := foldl_uint64 values 0
  rw [foldl_eq_ofDigits] at hf
  have hi : (values.foldl (fun n d => n * 16 + UInt64.ofNat d) (0 : UInt64)).toInt64 =
      Int64.ofNat (Nat.ofDigits 16 values.reverse) :=
    (congrArg UInt64.toInt64 hf).trans UInt64.toInt64_ofNat'
  change some (Number.int (if _ then -UInt64.toInt64 _ else UInt64.toInt64 _)) = _
  rw [hi, ofInt_withSign]
  rfl

end Numeral

structure Numeral.DenotesIntegers (sign : Sign) (text : Bytes) : Prop where
  decimal : ∀ {values}, Spells 10 text values →
    (-2 ^ 63 ≤ positional 10 sign values ∧ positional 10 sign values < 2 ^ 63 →
      ∃ i : Int64, read (sign.text ++ text) = some (.int i) ∧ i.toInt = positional 10 sign values) ∧
    (¬(-2 ^ 63 ≤ positional 10 sign values ∧ positional 10 sign values < 2 ^ 63) →
      read (sign.text ++ text) = some (.float
        (Double.ofDecimal sign.isMinus (Nat.ofDigits 10 values.reverse) 0)))
  based : ∀ {base}, Bare text →
    ((readBase base (sign.text ++ text)).isSome ↔
      ∀ b ∈ text, ∃ d, digitValue? (character b) = some d ∧ d < base) ∧
    ∀ {values}, Spells base text values → ∃ i : Int64, readBase base (sign.text ++ text) = some i ∧
      i.toInt = (positional base sign values).bmod (2 ^ 64)
  hexadecimal : ∀ {values}, Spells 16 text values → ∀ x ∈ [0x78, 0x58],
    ∃ i, read (sign.text ++ 0x30 :: x :: text) = some (.int i) ∧
      readBase 16 (sign.text ++ text) = some i

/-- Every reader comes to the value of the digits. -/
theorem Numeral.denotesIntegers (sign : Sign) {text : Bytes} (hn : text ≠ []) :
    DenotesIntegers sign text := by
  constructor
  case decimal =>
    intro values h
    have hr := read_decimal sign hn h
    generalize positional 10 sign values = z at hr ⊢
    have hm : Int64.minValue.toInt = -2 ^ 63 := rfl
    have hM : Int64.maxValue.toInt = 2 ^ 63 - 1 := rfl
    constructor
    · rintro ⟨hl, hu⟩
      have hi : Integer.ofInt? z = some (Int64.ofInt z) := if_pos ⟨by omega, by omega⟩
      rw [hi] at hr
      exact ⟨_, hr, Int64.toInt_ofInt_of_le hl hu⟩
    · intro hz
      have hi : Integer.ofInt? z = none := if_neg fun h => hz ⟨by omega, by omega⟩
      rw [hi] at hr
      exact hr
  case based =>
    intro base hb
    have hr := readBase_signed base sign hn hb
    refine ⟨?_, fun h => ?_⟩
    · rw [hr, Option.isSome_map, Option.isSome_iff_exists, ← exists_spells_iff]
      exact exists_congr fun values => mapM_digit?_eq_some_iff
    · rw [mapM_digit?_eq_some_iff.mpr h] at hr
      exact ⟨_, hr, Int64.toInt_ofInt⟩
  case hexadecimal =>
    intro values h x hx
    have hx : x = 0x78 ∨ x = 0x58 := by simpa using hx
    have hr := readBase_signed 16 sign hn h.bare
    rw [mapM_digit?_eq_some_iff.mpr h] at hr
    exact ⟨_, read_hexadecimal sign hx hn h, hr⟩

/-- The least integer and its opposite, and a numeral with letters of either case. -/
theorem Numeral.denotesIntegers_least :
    (∃ i : Int64, read (Bytes.ofString "-9223372036854775808") = some (.int i) ∧ i.toInt = -2 ^ 63) ∧
    (∃ x, read (Bytes.ofString "+9223372036854775808") = some (.float x)) ∧
    (readBase 15 (Bytes.ofString "7fF")).isSome = false ∧
    ∃ i : Int64, readBase 16 (Bytes.ofString "7fF") = some i ∧ i.toInt = 2047 ∧
      read (Bytes.ofString "0x7fF") = some (.int i) := by
  have hs : Spells 10 (Bytes.ofString "9223372036854775808")
      [9, 2, 2, 3, 3, 7, 2, 0, 3, 6, 8, 5, 4, 7, 7, 5, 8, 0, 8] :=
    mapM_digit?_eq_some_iff.mp (by decide)
  have hne : Bytes.ofString "9223372036854775808" ≠ [] := by decide
  have hl := (denotesIntegers .minus hne).decimal hs
  have hg := (denotesIntegers .plus hne).decimal hs
  have hne' : Bytes.ofString "7fF" ≠ [] := by decide
  have hx := denotesIntegers .absent hne'
  have hd : Spells 16 (Bytes.ofString "7fF") [7, 15, 15] := mapM_digit?_eq_some_iff.mp (by decide)
  obtain ⟨i, hr, hi⟩ := (hx.based hd.bare).2 hd
  obtain ⟨j, hj, hb⟩ := hx.hexadecimal hd 0x78 (by decide)
  obtain rfl : i = j := Option.some.inj (hr.symm.trans hb)
  refine ⟨hl.1 (by decide), ⟨_, hg.2 (by decide)⟩, ?_, i, hr, hi, hj⟩
  rw [Bool.eq_false_iff]
  intro hs
  obtain ⟨d, hd, hlt⟩ := (hx.based hd.bare).1.mp hs 0x66 (by decide)
  cases hd
  exact absurd hlt (by decide)

end LuaMachine
