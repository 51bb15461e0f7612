import LuaMachine.Library.Base
import LuaMachine.Proofs.Guarded.Start
import LuaMachine.Proofs.Numeral.Grammar

namespace LuaMachine

open Text

namespace Numeral

/-- The blanks of a numeral with a base. -/
def IsBlank (c : Char) : Prop := c = ' ' ∨ c = '\t' ∨ c = '\n' ∨ c = '\x0C' ∨ c = '\r'

instance (c : Char) : Decidable (IsBlank c) := inferInstanceAs (Decidable (_ ∨ _))

def IsPlain (blank : Char → Prop) (c : Char) : Prop :=
  blank c ∨ c = '+' ∨ c = '-' ∨ c.isDigit = true

def Plain (blank : Char → Prop) (s : Bytes) : Prop :=
  ∃ text : List Char, s = text.flatMap String.utf8EncodeChar ∧ ∀ c ∈ text, IsPlain blank c

/-- The encoding of a decimal integer with an optional sign and blanks around it. -/
inductive Denotes (blank : Char → Prop) : Bytes → Int → Prop where
  | intro {left ds right} (sign : Sign) : (∀ c ∈ left, blank c) → Digits ds →
    (∀ c ∈ right, blank c) →
    Denotes blank ((left ++ (sign.chars ++ ds) ++ right).flatMap String.utf8EncodeChar)
      (Integer.withSign sign.isMinus (decimalValue ds))

variable {blank blank' : Char → Prop} {s t : Bytes} {z : Int} {n : Int64} {c : Char}
  {text ds left right body : List Char} {sign : Sign}

theorem Denotes.mono (hb : ∀ c, blank c → blank' c) (h : Denotes blank s z) : Denotes blank' s z := by
  obtain ⟨sign, hl, hd, hr⟩ := h
  exact .intro sign (fun c hc => hb c (hl c hc)) hd fun c hc => hb c (hr c hc)

theorem isPlain_of_mem (hl : ∀ c ∈ left, blank c) (hd : Digits ds) (hr : ∀ c ∈ right, blank c) :
    ∀ c ∈ left ++ (sign.chars ++ ds) ++ right, IsPlain blank c := by
  simp only [List.forall_mem_append]
  refine ⟨⟨fun c hc => .inl (hl c hc), fun c hc => ?_, fun c hc => ?_⟩, fun c hc => .inl (hr c hc)⟩
  · exact .inr ((Sign.mem_chars hc).imp_right .inl)
  · exact .inr (.inr (.inr (hd.2 c hc)))

theorem Denotes.plain (h : Denotes blank s z) : Plain blank s := by
  obtain ⟨sign, hl, hd, hr⟩ := h
  exact ⟨_, rfl, isPlain_of_mem hl hd hr⟩

theorem isWhiteSpace_of_isBlank (h : IsBlank c) : isWhiteSpace c = true := by
  obtain rfl | rfl | rfl | rfl | rfl := h <;> rfl

theorem eq_of_encoding {text text' : List Char}
    (h : text.flatMap String.utf8EncodeChar = text'.flatMap String.utf8EncodeChar) : text = text' :=
  Option.some.inj ((Utf8.decode?_eq_some_iff.mpr rfl).symm.trans (Utf8.decode?_eq_some_iff.mpr h))

section Read

theorem read_of_denotes (h : Denotes (isWhiteSpace · = true) s z) :
    (∀ i, Integer.ofInt? z = some i → read s = some (.int i)) ∧
      (Integer.ofInt? z = none → ∃ x, read s = some (.float x)) := by
  obtain @⟨left, ds, right, sign, hl, hd, hr⟩ := h
  have hv := fun c hc => not_isWhiteSpace (visible_of_isDigit (hd.2 c hc))
  rw [read_spaced sign rfl hl hr (fun c hc => ⟨hv c (List.mem_of_mem_head? hc), hd.head c hc⟩)
    fun c hc => hv c (List.mem_of_getLast? hc), readUnsigned, isHexPrefixed_digits hd.2,
    if_neg Bool.false_ne_true, readDecimal_digits _ hd.1 hd.2]
  cases Integer.ofInt? (Integer.withSign sign.isMinus (decimalValue ds)) with
  | some i =>
    refine ⟨?_, fun h => absurd h (Option.some_ne_none i)⟩
    rintro _ ⟨⟩
    rfl
  | none => exact ⟨fun i h => absurd h.symm (Option.some_ne_none i), fun _ => ⟨_, rfl⟩⟩

theorem Unsigned.digits {range : Int → Prop} (h : Unsigned range text)
    (hp : ∀ c ∈ text, IsPlain (isWhiteSpace · = true) c) : Digits text := by
  have hs : ∀ c ∈ text, c = '+' ∨ c = '-' ∨ c.isDigit = true := fun c hc =>
    (hp c hc).resolve_left (Bool.eq_false_iff.mp (not_isWhiteSpace (h.visible c hc)))
  have hn {x : Char} (hx : x = 'x' ∨ x = 'X') : x ∉ text := fun hc => by
    have := hs x hc
    obtain rfl | rfl := hx <;> exact absurd this (by decide)
  cases h with
  | integer h => exact h
  | float h =>
    refine h.digits fun c hc => ?_
    obtain rfl | rfl | hd := hs c hc
    · exact ⟨by decide, rfl⟩
    · exact ⟨by decide, rfl⟩
    · exact ⟨by rintro rfl; exact absurd hd (by decide), isMark_digit hd⟩
  | hexInteger hx | hexFloat hx =>
    exact absurd (List.mem_cons_of_mem _ List.mem_cons_self) (hn hx)

theorem exists_denotes_of_read (hp : Plain (isWhiteSpace · = true) s) (h : (read s).isSome) :
    ∃ z, Denotes (isWhiteSpace · = true) s z := by
  obtain ⟨left, body, right, sign, rfl, hl, hr, hu⟩ := isNumeral_of_read h
  obtain ⟨text, he, ht⟩ := hp
  cases eq_of_encoding he
  exact ⟨_, .intro sign hl (hu.digits fun c hc => ht c (by simp [hc])) hr⟩

end Read

section ReadBase

theorem readBase_congr {base : Nat} (h : trim isAsciiBlank s = trim isAsciiBlank t) :
    readBase base s = readBase base t := by
  rw [readBase, readBase, h]

theorem isAsciiBlank_byte (h : IsBlank c) : isAsciiBlank (byte c) = true := by
  obtain rfl | rfl | rfl | rfl | rfl := h <;> rfl

theorem isBlank_character {b : UInt8} (h : isAsciiBlank b = true) : IsBlank (character b) := by
  simp only [isAsciiBlank, Bool.or_eq_true, beq_iff_eq] at h
  obtain (((rfl | rfl) | rfl) | rfl) | rfl := h <;> decide

theorem toNat_of_isPlain (h : IsPlain IsBlank c) : c.toNat < 0x80 := by
  obtain h | rfl | rfl | h := h
  · obtain rfl | rfl | rfl | rfl | rfl := h <;> decide
  · decide
  · decide
  · exact (visible_of_isDigit h).2

theorem isDigit_of_digit? {d : Nat} (h : digit? 10 c = some d) : c.isDigit = true := by
  obtain ⟨hv, hd⟩ := digit?_eq_some_iff.mp h
  have hr := toNat_of_digitValue? hv
  rw [Char.isDigit, Bool.and_eq_true, decide_eq_true_eq, decide_eq_true_eq]
  exact ⟨show 48 ≤ c.toNat by omega, show c.toNat ≤ 57 by omega⟩

theorem readBase_of_denotes (h : Denotes IsBlank s z) : readBase 10 s = some (Int64.ofInt z) := by
  obtain @⟨left, ds, right, sign, hl, hd, hr⟩ := h
  obtain ⟨values, hs, hv⟩ := exists_spells_digits hd.2
  have hb := isAsciiBlank_signed sign hs.bare
  have ht : trim isAsciiBlank (left.map byte ++ (sign.text ++ ds.map byte) ++ right.map byte) =
      trim isAsciiBlank (sign.text ++ ds.map byte) := by
    rw [trim_signed sign hs.bare]
    exact trim_blanks (List.forall_mem_map.mpr fun c hc => isAsciiBlank_byte (hl c hc))
      (List.forall_mem_map.mpr fun c hc => isAsciiBlank_byte (hr c hc))
      (fun b hm => hb b (List.mem_of_mem_head? hm)) fun b hm => hb b (List.mem_of_getLast? hm)
  have hn : ds.map byte ≠ [] := mt List.map_eq_nil_iff.mp hd.1
  rw [flatMap_ascii fun c hc => toNat_of_isPlain (isPlain_of_mem hl hd hr c hc), List.map_append,
    List.map_append, List.map_append, Sign.map_byte_chars, readBase_congr ht,
    readBase_signed 10 sign hn hs.bare, mapM_digit?_eq_some_iff.mpr hs, Option.map_some, positional, hv]

theorem exists_denotes_of_readBase (h : readBase 10 s = some n) :
    ∃ z, Denotes IsBlank s z ∧ n = Int64.ofInt z := by
  obtain ⟨left, right, hs, hl, hr⟩ := exists_trim isAsciiBlank s
  obtain ⟨sign, ht, -⟩ := exists_sign ((trim isAsciiBlank s).map character)
  have hd : Digits (splitSign ((trim isAsciiBlank s).map character)).2 := by
    rw [readBase] at h
    dsimp only at h
    split at h
    · cases h
    · next hn =>
      have hm := isSome_mapM_digit?_iff.mp (Option.isSome_map.symm.trans (congrArg Option.isSome h))
      exact ⟨fun he => hn (List.isEmpty_iff.mpr he), fun c hc => (hm c hc).elim fun d => isDigit_of_digit?⟩
  generalize (splitSign ((trim isAsciiBlank s).map character)).2 = ds at ht hd
  have hl' : ∀ c ∈ left.map character, IsBlank c :=
    List.forall_mem_map.mpr fun b hb => isBlank_character (hl b hb)
  have hr' : ∀ c ∈ right.map character, IsBlank c :=
    List.forall_mem_map.mpr fun b hb => isBlank_character (hr b hb)
  -- all of this is ASCII, so that the encoding of the characters is the bytes they came from
  have hz := Denotes.intro sign hl' hd hr'
  rw [flatMap_ascii fun c hc => toNat_of_isPlain (isPlain_of_mem hl' hd hr' c hc), ← ht,
    List.map_append, List.map_append, map_byte_character, map_byte_character, map_byte_character,
    ← hs] at hz
  exact ⟨_, hz, Option.some.inj (h.symm.trans (readBase_of_denotes hz))⟩

end ReadBase

theorem isWhiteSpace_isPlain (h : IsPlain IsBlank c) (hw : isWhiteSpace c = true) : IsBlank c := by
  obtain h | rfl | rfl | h := h
  · exact h
  · cases hw
  · cases hw
  · exact absurd hw (Bool.eq_false_iff.mp (not_isWhiteSpace (visible_of_isDigit h)))

theorem Plain.white (h : Plain IsBlank s) : Plain (isWhiteSpace · = true) s := by
  obtain ⟨text, he, ht⟩ := h
  exact ⟨text, he, fun c hc => (ht c hc).imp_left isWhiteSpace_of_isBlank⟩

theorem denotes_iff (hp : Plain IsBlank s) :
    Denotes (isWhiteSpace · = true) s z ↔ Denotes IsBlank s z := by
  refine ⟨fun h => ?_, Denotes.mono fun c => isWhiteSpace_of_isBlank⟩
  obtain ⟨text, he, ht⟩ := hp
  obtain @⟨left, ds, right, sign, hl, hd, hr⟩ := h
  cases eq_of_encoding he
  exact .intro sign (fun c hc => isWhiteSpace_isPlain (ht c (by simp [hc])) (hl c hc)) hd
    fun c hc => isWhiteSpace_isPlain (ht c (by simp [hc])) (hr c hc)

end Numeral

namespace Exec.Rearranges

variable {k : Nat} {vs : List Value} {i : Nat} {v : Value} {j : Int64}

theorem kindAt_above (h : vs.length ≤ i) : Rearranges k (Exec.kindAt (i + 1 : Nat)) .none vs vs := by
  have hv : Rearranges k (Exec.isValid (i + 1 : Nat)) false vs vs := fun m hm => by
    refine ⟨m, congrArg (Outcome.done · m) ?_, .refl m, hm⟩
    change m.isValid _ = false
    rw [Machine.isValid, place_above (by rwa [hm.top])]
  exact bind hv (pure Kind.none)

theorem isAbsent_above (h : vs.length ≤ i) : Rearranges k (Exec.isAbsent (i + 1 : Nat)) true vs vs :=
  bind (kindAt_above h) (pure true)

theorem isAbsent_int (h : vs[i]? = some (.int j)) :
    Rearranges k (Exec.isAbsent (i + 1 : Nat)) false vs vs :=
  bind (kindAt h) (pure false)

theorem checkInt (h : vs[i]? = some (.int j)) : Rearranges k (Exec.checkInt (i + 1 : Nat)) j vs vs :=
  bind (valueAt h) (pure j)

end Exec.Rearranges

namespace Library.Base

open Exec

variable {k : Nat} {s : Bytes}

theorem pushNumeral (s : Bytes) {vs : List Value} : Rearranges k (Exec.pushNumeral s)
    (Numeral.read s).isSome vs (vs ++ ((Numeral.read s).map Value.number).toList) := by
  rw [Exec.pushNumeral]
  cases Numeral.read s with
  | some n => exact .bind (.push _) (.pure true)
  | none =>
    rw [Option.map_none, Option.toList_none, List.append_nil]
    exact .pure false

theorem tonumber_string : Rearranges k tonumber 1 [.string s]
    [.string s, ((Numeral.read s).map Value.number).getD .nil] := by
  refine .bind (.isAbsent_above (i := 1) (Nat.le_refl 1)) (.bind (.valueAt (i := 0) rfl) ?_)
  refine .bind (pushNumeral s) ?_
  cases Numeral.read s with
  | some n => exact .pure 1
  | none => exact .bind (.push .nil) (.pure 1)

theorem tonumber_decimal : Rearranges k tonumber 1 [.string s, .int 10]
    [.string s, .int 10, ((Numeral.readBase 10 s).map Value.int).getD .nil] := by
  have hs : [Value.string s, .int 10][0]? = some (.string s) := rfl
  have hb : [Value.string s, .int 10][1]? = some (.int 10) := rfl
  refine .bind (.isAbsent_int hb) (.bind (.checkInt hb) (.bind (.checkKind hs) (.bind (.pure ()) ?_)))
  exact .bind (.valueAt hs) (.bind (.push _) (.pure 1))

end Library.Base

namespace Numeral

variable {s : Bytes}

theorem isSome_read_of_denotes {z : Int} (h : Denotes (isWhiteSpace · = true) s z) : (read s).isSome := by
  obtain ⟨hi, hx⟩ := read_of_denotes h
  cases hz : Integer.ofInt? z with
  | some i => rw [hi i hz]; rfl
  | none =>
    obtain ⟨x, hx⟩ := hx hz
    rw [hx]
    rfl

theorem read_eq_int_iff (hp : Plain (isWhiteSpace · = true) s) (n : Int64) :
    read s = some (.int n) ↔ Denotes (isWhiteSpace · = true) s n.toInt := by
  constructor
  · intro h
    obtain ⟨z, hz⟩ := exists_denotes_of_read hp (by rw [h]; rfl)
    obtain ⟨hi, hx⟩ := read_of_denotes hz
    cases ho : Integer.ofInt? z with
    | some i =>
      cases h.symm.trans (hi i ho)
      rwa [← Integer.toInt_of_ofInt? ho]
    | none =>
      obtain ⟨x, hx⟩ := hx ho
      cases h.symm.trans hx
  · exact fun h => (read_of_denotes h).1 n (Integer.ofInt?_toInt n)

theorem readBase_eq_iff (n : Int64) :
    readBase 10 s = some n ↔ ∃ z, Denotes IsBlank s z ∧ n = Int64.ofInt z :=
  ⟨exists_denotes_of_readBase, fun ⟨_, hz, hn⟩ => hn ▸ readBase_of_denotes hz⟩

theorem readBase_eq_none_iff : readBase 10 s = none ↔ ∀ z, ¬Denotes IsBlank s z := by
  rw [Option.eq_none_iff_forall_ne_some]
  constructor
  · exact fun h z hz => h _ (readBase_of_denotes hz)
  · intro h n hn
    obtain ⟨z, hz, -⟩ := exists_denotes_of_readBase hn
    exact h z hz

theorem read_eq_none_iff (hp : Plain (isWhiteSpace · = true) s) :
    read s = none ↔ ∀ z, ¬Denotes (isWhiteSpace · = true) s z := by
  rw [← Option.not_isSome_iff_eq_none]
  constructor
  · exact fun h z hz => h (isSome_read_of_denotes hz)
  · intro h hs
    obtain ⟨z, hz⟩ := exists_denotes_of_read hp hs
    exact h z hz

/-- How decimal integers are read with a base and without, in a text of white space, signs and
digits. -/
structure ReadsDecimals (s : Bytes) : Prop where
  integer : ∀ n, read s = some (.int n) ↔ Denotes (isWhiteSpace · = true) s n.toInt
  refused : read s = none ↔ ∀ z, ¬Denotes (isWhiteSpace · = true) s z
  based : ∀ n, readBase 10 s = some n ↔ ∃ z, Denotes IsBlank s z ∧ n = Int64.ofInt z
  agrees : Plain IsBlank s →
    ∀ n, readBase 10 s = some n ∧ Denotes IsBlank s n.toInt ↔ read s = some (.int n)
  refusedAlike : Plain IsBlank s → (readBase 10 s = none ↔ read s = none)
  otherBlanks : ¬Plain IsBlank s → readBase 10 s = none
  answers : Plain IsBlank s → (∀ z, Denotes IsBlank s z → -2 ^ 63 ≤ z ∧ z < 2 ^ 63) →
    ∃ v, ∀ k, Exec.Rearranges k Library.Base.tonumber 1 [.string s] [.string s, v] ∧
      Exec.Rearranges k Library.Base.tonumber 1 [.string s, .int 10] [.string s, .int 10, v]

theorem agrees_of_plain (hp : Plain IsBlank s) (n : Int64) :
    readBase 10 s = some n ∧ Denotes IsBlank s n.toInt ↔ read s = some (.int n) := by
  rw [read_eq_int_iff hp.white, denotes_iff hp]
  refine and_iff_right_of_imp fun hz => ?_
  rw [readBase_of_denotes hz, Int64.ofInt_toInt]

theorem refused_of_plain (hp : Plain IsBlank s) : readBase 10 s = none ↔ read s = none := by
  rw [read_eq_none_iff hp.white, readBase_eq_none_iff]
  exact forall_congr' fun z => not_congr (denotes_iff hp).symm

theorem values_of_plain (hp : Plain IsBlank s)
    (hf : ∀ z, Denotes IsBlank s z → -2 ^ 63 ≤ z ∧ z < 2 ^ 63) :
    (read s).map Value.number = (readBase 10 s).map Value.int := by
  cases hn : readBase 10 s with
  | none => rw [(refused_of_plain hp).mp hn]; rfl
  | some n =>
    obtain ⟨z, hz, rfl⟩ := exists_denotes_of_readBase hn
    obtain ⟨hl, hu⟩ := hf z hz
    have ht : (Int64.ofInt z).toInt = z := Int64.toInt_ofInt_of_le hl hu
    rw [(agrees_of_plain hp _).mp ⟨hn, ht.symm ▸ hz⟩]
    rfl

theorem readsDecimals (h : Plain (isWhiteSpace · = true) s) : ReadsDecimals s where
  integer := read_eq_int_iff h
  refused := read_eq_none_iff h
  based := readBase_eq_iff
  agrees := agrees_of_plain
  refusedAlike := refused_of_plain
  otherBlanks hp := readBase_eq_none_iff.mpr fun z hz => hp hz.plain
  answers hp hf := by
    refine ⟨((readBase 10 s).map Value.int).getD .nil, fun k => ⟨?_, Library.Base.tonumber_decimal⟩⟩
    rw [← values_of_plain hp hf]
    exact Library.Base.tonumber_string

/-- A numeral with blanks on both sides, a sign and a leading zero. -/
theorem readsDecimals_spaced : ReadsDecimals (Bytes.ofString " -07\n") ∧
    readBase 10 (Bytes.ofString " -07\n") = some (-7) ∧
    read (Bytes.ofString " -07\n") = some (.int (-7)) := by
  have hd : Digits ['0', '7'] := ⟨by decide, List.all_eq_true.mp (by decide)⟩
  have hz : Denotes IsBlank (Bytes.ofString " -07\n") (-7) :=
    @Denotes.intro _ [' '] ['0', '7'] ['\n'] .minus (List.forall_mem_singleton.mpr (by decide)) hd
      (List.forall_mem_singleton.mpr (by decide))
  have h := readsDecimals hz.plain.white
  have hr : read (Bytes.ofString " -07\n") = some (.int (-7)) := by decide
  exact ⟨h, ((h.agrees hz.plain (-7)).mpr hr).1, hr⟩

/-- The vertical tab is white space without a base only. -/
theorem readsDecimals_tabbed : Denotes (isWhiteSpace · = true) [0x0B, 0x35] 5 ∧
    ¬(readBase 10 [0x0B, 0x35] = some 5 ↔ read [0x0B, 0x35] = some (.int 5)) ∧
    ∀ k, Exec.Rearranges k Library.Base.tonumber 1 [.string [0x0B, 0x35]]
        [.string [0x0B, 0x35], .int 5] ∧
      Exec.Rearranges k Library.Base.tonumber 1 [.string [0x0B, 0x35], .int 10]
        [.string [0x0B, 0x35], .int 10, .nil] := by
  have hd : Denotes (isWhiteSpace · = true) [0x0B, 0x35] 5 :=
    @Denotes.intro _ ['\x0B'] ['5'] [] .absent (List.forall_mem_singleton.mpr rfl)
      ⟨by decide, List.forall_mem_singleton.mpr rfl⟩ nofun
  have hb : readBase 10 [0x0B, 0x35] = none := by decide
  have hr : read [0x0B, 0x35] = some (.int 5) := by decide
  refine ⟨hd, ?_, fun k => ?_⟩
  · rw [hb, hr]
    decide
  · have hs := @Library.Base.tonumber_string k [0x0B, 0x35]
    have ht := @Library.Base.tonumber_decimal k [0x0B, 0x35]
    rw [hr] at hs
    rw [hb] at ht
    exact ⟨hs, ht⟩

end Numeral
end LuaMachine
