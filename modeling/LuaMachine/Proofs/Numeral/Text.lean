import LuaMachine.Proofs.Numeral

namespace LuaMachine

open Text

namespace Utf8

variable {p : Pending} {b : UInt8} {s : Bytes} {c : Char} {out : List (Option Char)}

theorem scalarsFrom_cons (p : Option Pending) (b : UInt8) (s : Bytes) :
    scalarsFrom p (b :: s) = (advance p b).1 ++ scalarsFrom (advance p b).2 s := by
  cases p <;> rfl

theorem scalarsFrom_some_eq_cons (h : scalarsFrom (some p) s = some c :: out) :
    ∃ b rest, s = b :: rest ∧ p.low.toNat ≤ b.toNat ∧ b.toNat ≤ p.high.toNat ∧
      if p.missing ≤ 1 then c = Char.ofNat (p.bits * 64 + b.toNat % 64) ∧ scalarsFrom none rest = out
      else scalarsFrom (some { bits := p.bits * 64 + b.toNat % 64, missing := p.missing - 1 }) rest =
        some c :: out := by
  cases s with
  | nil => cases h
  | cons b rest =>
    rw [scalarsFrom_cons, advance] at h
    by_cases hb : p.low ≤ b ∧ b ≤ p.high
    · refine ⟨b, rest, rfl, UInt8.le_iff_toNat_le.1 hb.1, UInt8.le_iff_toNat_le.1 hb.2, ?_⟩
      rw [if_pos hb] at h
      dsimp only at h
      split at h
      · next hm =>
        rw [if_pos hm]
        cases h
        exact ⟨rfl, rfl⟩
      · next hm =>
        rw [if_neg hm]
        exact h
    · rw [if_neg hb] at h
      cases h

theorem toNat_ofNat_valid {v : Nat} (h : v < 0xD800 ∨ 0xDFFF < v ∧ v < 0x110000) :
    (Char.ofNat v).toNat = v := by
  rw [Char.ofNat, dif_pos h]
  rfl

theorem ofNat_byte {v : Nat} (h : v = b.toNat) : UInt8.ofNat v = b := by
  rw [h, UInt8.ofNat_toNat]

/-- The bytes at the beginning encode the character that is read first. -/
def Begins (s : Bytes) (c : Char) (out : List (Option Char)) : Prop :=
  ∃ rest, s = String.utf8EncodeChar c ++ rest ∧ scalarsFrom none rest = out

theorem begins_two (hl : 0xC2 ≤ b.toNat) (hu : b.toNat < 0xE0)
    (h : scalarsFrom (start b).2 s = some c :: out) : Begins (b :: s) c out := by
  rw [start_two b hl hu] at h
  obtain ⟨b₂, rest, rfl, hl₂, hu₂, hc, hr⟩ := scalarsFrom_some_eq_cons h
  refine ⟨rest, ?_, hr⟩
  have hl₂ : 0x80 ≤ b₂.toNat := hl₂
  have hu₂ : b₂.toNat ≤ 0xBF := hu₂
  dsimp only at hc
  have hv : c.toNat = b.toNat % 32 * 64 + b₂.toNat % 64 := by
    rw [hc, toNat_ofNat_valid (by omega)]
  rw [utf8EncodeChar_eq, hv, if_neg (by omega), if_pos (by omega), ofNat_byte (b := b) (by omega),
    ofNat_byte (b := b₂) (by omega)]
  rfl

theorem begins_three (hl : 0xE0 ≤ b.toNat) (hu : b.toNat < 0xF0)
    (h : scalarsFrom (start b).2 s = some c :: out) : Begins (b :: s) c out := by
  rw [start_three b hl hu] at h
  obtain ⟨b₂, _, rfl, hl₂, hu₂, h⟩ := scalarsFrom_some_eq_cons h
  obtain ⟨b₃, rest, rfl, hl₃, hu₃, hc, hr⟩ := scalarsFrom_some_eq_cons h
  refine ⟨rest, ?_, hr⟩
  -- the bounds of the second byte leave out longer forms than necessary and surrogates
  rw [apply_ite UInt8.toNat] at hl₂ hu₂
  change (if b.toNat = 0xE0 then 0xA0 else 0x80) ≤ _ at hl₂
  change _ ≤ (if b.toNat = 0xED then 0x9F else 0xBF) at hu₂
  have hl₃ : 0x80 ≤ b₃.toNat := hl₃
  have hu₃ : b₃.toNat ≤ 0xBF := hu₃
  dsimp only at hc
  have hv : c.toNat = (b.toNat % 16 * 64 + b₂.toNat % 64) * 64 + b₃.toNat % 64 := by
    rw [hc, toNat_ofNat_valid]
    split at hl₂ <;> split at hu₂ <;> omega
  have hb : b₂.toNat ≤ 0xBF := by
    split at hu₂ <;> omega
  have hw : ¬c.toNat ≤ 2047 := by
    split at hl₂ <;> omega
  have ha : 0x80 ≤ b₂.toNat := by
    split at hl₂ <;> omega
  rw [utf8EncodeChar_eq, if_neg (by omega), if_neg hw, if_pos (by omega), hv,
    ofNat_byte (b := b) (by omega), ofNat_byte (b := b₂) (by omega), ofNat_byte (b := b₃) (by omega)]
  rfl

theorem begins_four (hl : 0xF0 ≤ b.toNat) (hu : b.toNat < 0xF5)
    (h : scalarsFrom (start b).2 s = some c :: out) : Begins (b :: s) c out := by
  rw [start_four b hl hu] at h
  obtain ⟨b₂, _, rfl, hl₂, hu₂, h⟩ := scalarsFrom_some_eq_cons h
  obtain ⟨b₃, _, rfl, hl₃, hu₃, h⟩ := scalarsFrom_some_eq_cons h
  obtain ⟨b₄, rest, rfl, hl₄, hu₄, hc, hr⟩ := scalarsFrom_some_eq_cons h
  refine ⟨rest, ?_, hr⟩
  -- here they leave out longer forms than necessary and what is above `0x10FFFF`
  rw [apply_ite UInt8.toNat] at hl₂ hu₂
  change (if b.toNat = 0xF0 then 0x90 else 0x80) ≤ _ at hl₂
  change _ ≤ (if b.toNat = 0xF4 then 0x8F else 0xBF) at hu₂
  have hl₃ : 0x80 ≤ b₃.toNat := hl₃
  have hu₃ : b₃.toNat ≤ 0xBF := hu₃
  have hl₄ : 0x80 ≤ b₄.toNat := hl₄
  have hu₄ : b₄.toNat ≤ 0xBF := hu₄
  have hb : b₂.toNat ≤ 0xBF := by
    split at hu₂ <;> omega
  have ha : 0x80 ≤ b₂.toNat := by
    split at hl₂ <;> omega
  dsimp only at hc
  have hv : c.toNat = ((b.toNat % 8 * 64 + b₂.toNat % 64) * 64 + b₃.toNat % 64) * 64 +
      b₄.toNat % 64 := by
    rw [hc, toNat_ofNat_valid]
    split at hl₂ <;> split at hu₂ <;> omega
  have hw : ¬c.toNat ≤ 65535 := by
    split at hl₂ <;> omega
  rw [utf8EncodeChar_eq, if_neg (by omega), if_neg (by omega), if_neg hw, hv,
    ofNat_byte (b := b) (by omega), ofNat_byte (b := b₂) (by omega), ofNat_byte (b := b₃) (by omega),
    ofNat_byte (b := b₄) (by omega)]
  rfl

theorem begins_of_scalarsFrom (h : scalarsFrom none s = some c :: out) : Begins s c out := by
  cases s with
  | nil => cases h
  | cons b s =>
    rw [scalarsFrom_cons] at h
    change (start b).1 ++ scalarsFrom (start b).2 s = _ at h
    by_cases h₁ : b.toNat < 0x80
    · have hs : start b = ([some (Char.ofNat b.toNat)], none) := by simp [start, h₁]
      rw [hs] at h
      cases h
      refine ⟨s, ?_, rfl⟩
      rw [utf8EncodeChar_eq, toNat_ofNat_valid (by omega), if_pos (by omega), UInt8.ofNat_toNat]
      rfl
    by_cases h₂ : b.toNat < 0xC2
    · have hs : start b = ([none], none) := by simp [start, h₁, h₂]
      rw [hs] at h
      cases h
    by_cases h₃ : b.toNat < 0xE0
    · exact begins_two (by omega) h₃ (by rwa [start_two b (by omega) h₃] at h ⊢)
    by_cases h₄ : b.toNat < 0xF0
    · exact begins_three (by omega) h₄ (by rwa [start_three b (by omega) h₄] at h ⊢)
    by_cases h₅ : b.toNat < 0xF5
    · exact begins_four (by omega) h₅ (by rwa [start_four b (by omega) h₅] at h ⊢)
    · have hs : start b = ([none], none) := by simp [start, h₁, h₂, h₃, h₄, h₅]
      rw [hs] at h
      cases h

theorem mapM_id_eq_some_iff {os : List (Option Char)} {text : List Char} :
    os.mapM id = some text ↔ os = text.map some := by
  induction os generalizing text with
  | nil =>
    rw [List.mapM_nil, List.nil_eq, List.map_eq_nil_iff]
    exact ⟨fun h => (Option.some.inj h).symm, fun h => h ▸ rfl⟩
  | cons o os ih =>
    rw [List.mapM_cons]
    constructor
    · intro h
      obtain ⟨c, hc, h⟩ := Option.bind_eq_some_iff.mp h
      obtain ⟨cs, hcs, h⟩ := Option.bind_eq_some_iff.mp h
      cases h
      rw [List.map_cons, ih.mp hcs, ← hc, id]
    · intro h
      cases text with
      | nil => cases h
      | cons c cs =>
        obtain ⟨rfl, rfl⟩ := List.cons.inj h
        rw [ih.mpr rfl]
        rfl

theorem scalarsFrom_some_ne_nil : scalarsFrom (some p) s ≠ [] := by
  induction s generalizing p with
  | nil => exact List.cons_ne_nil _ _
  | cons b s ih =>
    rw [scalarsFrom_cons, advance]
    split
    · dsimp only
      split
      · exact List.cons_ne_nil _ _
      · exact ih
    · exact List.cons_ne_nil _ _

theorem start_out_or_pending (b : UInt8) : (start b).1 ≠ [] ∨ ∃ p, (start b).2 = some p := by
  unfold start
  dsimp only
  split_ifs <;> simp

theorem scalarsFrom_none_eq_nil (h : scalarsFrom none s = []) : s = [] := by
  cases s with
  | nil => rfl
  | cons b s =>
    obtain ⟨ho, hn⟩ := List.append_eq_nil_iff.mp (scalarsFrom_cons none b s ▸ h)
    obtain hs | ⟨p, hp⟩ := start_out_or_pending b
    · exact absurd ho hs
    · exact absurd (hp ▸ hn : scalarsFrom (some p) s = []) scalarsFrom_some_ne_nil

theorem decode?_eq_some_iff {text : List Char} :
    decode? s = some text ↔ s = text.flatMap String.utf8EncodeChar := by
  constructor
  · intro h
    rw [decode?, scalars, mapM_id_eq_some_iff] at h
    induction text generalizing s with
    | nil => exact scalarsFrom_none_eq_nil h
    | cons c text ih =>
      obtain ⟨rest, rfl, hr⟩ := begins_of_scalarsFrom h
      rw [ih hr, List.flatMap_cons]
  · rintro rfl
    have h := decode?_ofString (String.ofList text)
    rwa [Bytes.ofString, String.toList_ofList] at h

end Utf8

namespace Text

variable {α : Type} {p : α → Bool} {left body right : List α} {c : Char} {cs : List Char}

def byte (c : Char) : UInt8 := UInt8.ofNat c.toNat

theorem toNat_byte (h : c.toNat < 0x80) : (byte c).toNat = c.toNat := Utf8.toNat_byte _ (by omega)

theorem flatMap_ascii (h : ∀ c ∈ cs, c.toNat < 0x80) :
    cs.flatMap String.utf8EncodeChar = cs.map byte := by
  rw [List.map_eq_flatMap]
  refine List.flatMap_congr fun c hc => ?_
  have := h c hc
  rw [Utf8.utf8EncodeChar_eq, if_pos (by omega)]
  rfl

theorem character_byte (h : c.toNat < 0x80) : Numeral.character (byte c) = c := by
  rw [Numeral.character, toNat_byte h, Char.ofNat_toNat]

theorem map_character_byte (h : ∀ c ∈ cs, c.toNat < 0x80) :
    (cs.map byte).map Numeral.character = cs := by
  rw [List.map_map]
  exact (List.map_congr_left fun c hc => character_byte (h c hc)).trans (List.map_id' cs)

theorem map_byte_character (s : Bytes) : (s.map Numeral.character).map byte = s := by
  rw [List.map_map]
  refine (List.map_congr_left fun b _ => ?_).trans (List.map_id' s)
  rw [Function.comp_apply, byte, Numeral.toNat_character, UInt8.ofNat_toNat]

theorem toNat_of_isDigit (h : c.isDigit = true) : 48 ≤ c.toNat ∧ c.toNat ≤ 57 := by
  rw [Char.isDigit, Bool.and_eq_true, decide_eq_true_eq, decide_eq_true_eq] at h
  exact h

theorem digitValue?_of_isDigit (h : c.isDigit = true) :
    ∃ d, digitValue? c = some d ∧ d < 10 := by
  obtain ⟨hl, hu⟩ := toNat_of_isDigit h
  exact ⟨c.toNat - 48, if_pos (show '0' ≤ c ∧ c ≤ '9' from ⟨hl, hu⟩), by omega⟩

theorem dropWhile_blanks (hl : ∀ x ∈ left, p x = true) (hb : ∀ x ∈ body.head?, p x = false)
    (hr : ∀ x ∈ right, p x = true) :
    (left ++ body ++ right).dropWhile p = if body.isEmpty then [] else body ++ right := by
  rw [List.append_assoc, List.dropWhile_append_of_pos hl]
  cases body with
  | nil => exact List.dropWhile_eq_nil_iff.mpr hr
  | cons b body => exact List.dropWhile_cons_of_neg (by simp [hb b rfl])

theorem trim_blanks (hl : ∀ x ∈ left, p x = true) (hr : ∀ x ∈ right, p x = true)
    (hh : ∀ x ∈ body.head?, p x = false) (ht : ∀ x ∈ body.getLast?, p x = false) :
    trim p (left ++ body ++ right) = body := by
  rw [trim, dropWhile_blanks hl hh hr]
  cases body with
  | nil => rfl
  | cons b body =>
    have h := @dropWhile_blanks _ p right.reverse (b :: body).reverse []
      (fun x hx => hr x (List.mem_reverse.mp hx)) (by rwa [List.head?_reverse])
      fun x hx => absurd hx List.not_mem_nil
    rw [List.append_nil, List.append_nil] at h
    rw [List.isEmpty_cons, if_neg Bool.false_ne_true, List.reverse_append, h, if_neg (by simp),
      List.reverse_reverse]

theorem exists_trim (p : α → Bool) (xs : List α) : ∃ left right, xs = left ++ trim p xs ++ right ∧
    (∀ x ∈ left, p x = true) ∧ ∀ x ∈ right, p x = true := by
  have hl := List.takeWhile_append_dropWhile (p := p) (l := xs)
  have hr := List.takeWhile_append_dropWhile (p := p) (l := (xs.dropWhile p).reverse)
  refine ⟨xs.takeWhile p, ((xs.dropWhile p).reverse.takeWhile p).reverse, ?_, ?_, ?_⟩
  · rw [trim, List.append_assoc, ← List.reverse_append, hr, List.reverse_reverse, hl]
  · exact fun x hx => List.mem_takeWhile_imp hx
  · exact fun x hx => List.mem_takeWhile_imp (List.mem_reverse.mp hx)

end Text

namespace Numeral

variable {sign : Sign} {text : List Char}

def Sign.chars : Sign → List Char
  | absent => []
  | plus => ['+']
  | minus => ['-']

theorem Sign.mem_chars {c : Char} (h : c ∈ sign.chars) : c = '+' ∨ c = '-' := by
  cases sign with
  | absent => cases h
  | plus => exact .inl (List.mem_singleton.mp h)
  | minus => exact .inr (List.mem_singleton.mp h)

theorem splitSign_chars (sign : Sign) (h : ∀ c ∈ text.head?, c ≠ '+' ∧ c ≠ '-') :
    splitSign (sign.chars ++ text) = (sign.isMinus, text) := by
  cases sign with
  | plus | minus => rfl
  | absent =>
    change splitSign text = (false, text)
    unfold splitSign
    split
    · exact absurd rfl (h '-' rfl).2
    · exact absurd rfl (h '+' rfl).1
    · rfl

theorem exists_sign (text : List Char) :
    ∃ sign : Sign, text = sign.chars ++ (splitSign text).2 ∧ (splitSign text).1 = sign.isMinus := by
  unfold splitSign
  split
  · exact ⟨.minus, rfl, rfl⟩
  · exact ⟨.plus, rfl, rfl⟩
  · exact ⟨.absent, rfl, rfl⟩

theorem Sign.map_byte_chars (sign : Sign) : sign.chars.map byte = sign.text := by
  cases sign <;> rfl

theorem exists_spells_digits (h : ∀ c ∈ text, c.isDigit = true) :
    ∃ values, Spells 10 (text.map byte) values ∧
      Nat.ofDigits 10 values.reverse = Text.decimalValue text := by
  have ha : ∀ c ∈ text, c.toNat < 0x80 := fun c hc => by
    have := toNat_of_isDigit (h c hc)
    omega
  obtain ⟨values, hv⟩ := (@exists_spells_iff 10 (text.map byte)).mpr <| by
    intro b hb
    obtain ⟨c, hc, rfl⟩ := List.mem_map.mp hb
    rw [character_byte (ha c hc)]
    exact digitValue?_of_isDigit (h c hc)
  refine ⟨values, hv, ?_⟩
  rw [← hv.decimalValue, map_character_byte ha]

end Numeral
end LuaMachine
