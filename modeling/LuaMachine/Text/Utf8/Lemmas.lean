import LuaMachine.Text.Utf8

namespace LuaMachine.Utf8

theorem scalars_of_ascii (s : Bytes) (h : ∀ b ∈ s, b.toNat < 0x80) :
    scalars s = s.map fun b => some (Char.ofNat b.toNat) := by
  unfold scalars
  induction s with
  | nil => rfl
  | cons b s ih =>
    have hb : b.toNat < 0x80 := h b (by simp)
    have hs : start b = ([some (Char.ofNat b.toNat)], none) := by simp [start, hb]
    rw [scalarsFrom, advance, hs]
    exact congrArg _ (ih fun c hc => h c (List.mem_cons_of_mem _ hc))

theorem start_two (b : UInt8) (hl : 0xC2 ≤ b.toNat) (hu : b.toNat < 0xE0) :
    start b = ([], some { bits := b.toNat % 32, missing := 1 }) := by
  unfold start
  rw [if_neg (by omega), if_neg (by omega), if_pos hu]

theorem start_three (b : UInt8) (hl : 0xE0 ≤ b.toNat) (hu : b.toNat < 0xF0) :
    start b = ([], some {
      bits := b.toNat % 16
      missing := 2
      low := if b.toNat = 0xE0 then 0xA0 else 0x80
      high := if b.toNat = 0xED then 0x9F else 0xBF }) := by
  unfold start
  rw [if_neg (by omega), if_neg (by omega), if_neg (by omega), if_pos hu]

theorem start_four (b : UInt8) (hl : 0xF0 ≤ b.toNat) (hu : b.toNat < 0xF5) :
    start b = ([], some {
      bits := b.toNat % 8
      missing := 3
      low := if b.toNat = 0xF0 then 0x90 else 0x80
      high := if b.toNat = 0xF4 then 0x8F else 0xBF }) := by
  unfold start
  rw [if_neg (by omega), if_neg (by omega), if_neg (by omega), if_neg (by omega), if_pos hu]

theorem advance_last (p : Pending) (b : UInt8) (hl : p.low.toNat ≤ b.toNat)
    (hu : b.toNat ≤ p.high.toNat) (hm : p.missing ≤ 1) :
    advance (some p) b = ([some (Char.ofNat (p.bits * 64 + b.toNat % 64))], none) := by
  have hb : p.low ≤ b ∧ b ≤ p.high := ⟨UInt8.le_iff_toNat_le.2 hl, UInt8.le_iff_toNat_le.2 hu⟩
  simp [advance, hb, hm]

theorem advance_more (p : Pending) (b : UInt8) (hl : p.low.toNat ≤ b.toNat)
    (hu : b.toNat ≤ p.high.toNat) (hm : 1 < p.missing) :
    advance (some p) b =
      ([], some { bits := p.bits * 64 + b.toNat % 64, missing := p.missing - 1 }) := by
  have hb : p.low ≤ b ∧ b ≤ p.high := ⟨UInt8.le_iff_toNat_le.2 hl, UInt8.le_iff_toNat_le.2 hu⟩
  simp [advance, hb, Nat.not_le_of_lt hm]

theorem toNat_valid (c : Char) : c.toNat < 0xD800 ∨ 0xDFFF < c.toNat ∧ c.toNat < 0x110000 :=
  c.valid

theorem toNat_byte (n : Nat) (h : n < 256) : (UInt8.ofNat n).toNat = n := by
  rw [UInt8.toNat_ofNat']
  exact Nat.mod_eq_of_lt h

theorem utf8EncodeChar_eq (c : Char) : String.utf8EncodeChar c =
    if c.toNat ≤ 127 then [UInt8.ofNat c.toNat]
    else if c.toNat ≤ 2047 then
      [UInt8.ofNat (c.toNat / 64 % 32 + 192), UInt8.ofNat (c.toNat % 64 + 128)]
    else if c.toNat ≤ 65535 then
      [UInt8.ofNat (c.toNat / 4096 % 16 + 224), UInt8.ofNat (c.toNat / 64 % 64 + 128),
        UInt8.ofNat (c.toNat % 64 + 128)]
    else
      [UInt8.ofNat (c.toNat / 262144 % 8 + 240), UInt8.ofNat (c.toNat / 4096 % 64 + 128),
        UInt8.ofNat (c.toNat / 64 % 64 + 128), UInt8.ofNat (c.toNat % 64 + 128)] := rfl

theorem scalarsFrom_encode (c : Char) (s : Bytes) :
    scalarsFrom none (String.utf8EncodeChar c ++ s) = some c :: scalarsFrom none s := by
  have hv := toNat_valid c
  have hc : Char.ofNat c.toNat = c := Char.ofNat_toNat c
  rw [utf8EncodeChar_eq]
  generalize c.toNat = v at *
  split
  next h =>
    have hb := toNat_byte v (by omega)
    have hs : start (UInt8.ofNat v) = ([some c], none) := by
      unfold start
      rw [hb, if_pos (by omega), hc]
    simp only [List.cons_append, List.nil_append, scalarsFrom, advance, hs]
  split
  next h h' =>
    have h₁ := toNat_byte (v / 64 % 32 + 192) (by omega)
    have h₂ := toNat_byte (v % 64 + 128) (by omega)
    simp only [List.cons_append, List.nil_append, scalarsFrom]
    rw [advance, start_two _ (by omega) (by omega), advance_last _ _ (by simp; omega)
      (by simp; omega) (by simp), h₁, h₂]
    have : (v / 64 % 32 + 192) % 32 * 64 + (v % 64 + 128) % 64 = v := by omega
    simp only [this, hc, List.nil_append, List.cons_append]
  split
  next h h' h'' =>
    have h₁ := toNat_byte (v / 4096 % 16 + 224) (by omega)
    have h₂ := toNat_byte (v / 64 % 64 + 128) (by omega)
    have h₃ := toNat_byte (v % 64 + 128) (by omega)
    simp only [List.cons_append, List.nil_append, scalarsFrom]
    rw [advance, start_three _ (by omega) (by omega)]
    rw [advance_more _ _ (by simp only; split <;> simp <;> omega)
      (by simp only; split <;> simp <;> omega) (by simp)]
    rw [advance_last _ _ (by simp; omega) (by simp; omega) (by simp), h₁, h₂, h₃]
    have : ((v / 4096 % 16 + 224) % 16 * 64 + (v / 64 % 64 + 128) % 64) * 64 +
        (v % 64 + 128) % 64 = v := by omega
    simp only [this, hc, List.nil_append, List.cons_append]
  next h h' h'' =>
    have h₁ := toNat_byte (v / 262144 % 8 + 240) (by omega)
    have h₂ := toNat_byte (v / 4096 % 64 + 128) (by omega)
    have h₃ := toNat_byte (v / 64 % 64 + 128) (by omega)
    have h₄ := toNat_byte (v % 64 + 128) (by omega)
    simp only [List.cons_append, List.nil_append, scalarsFrom]
    rw [advance, start_four _ (by omega) (by omega)]
    rw [advance_more _ _ (by simp only; split <;> simp <;> omega)
      (by simp only; split <;> simp <;> omega) (by simp)]
    rw [advance_more _ _ (by simp; omega) (by simp; omega) (by simp)]
    rw [advance_last _ _ (by simp; omega) (by simp; omega) (by simp), h₁, h₂, h₃, h₄]
    have : (((v / 262144 % 8 + 240) % 8 * 64 + (v / 4096 % 64 + 128) % 64) * 64 +
        (v / 64 % 64 + 128) % 64) * 64 + (v % 64 + 128) % 64 = v := by omega
    simp only [this, hc, List.nil_append, List.cons_append]

theorem scalars_ofString (s : String) : scalars (Bytes.ofString s) = s.toList.map some := by
  unfold scalars Bytes.ofString
  induction s.toList with
  | nil => rfl
  | cons c cs ih => rw [List.flatMap_cons, scalarsFrom_encode, ih]; rfl

theorem decode?_ofString (s : String) : decode? (Bytes.ofString s) = some s.toList := by
  unfold decode?
  rw [scalars_ofString]
  induction s.toList with
  | nil => rfl
  | cons c cs ih => simp [ih]

end LuaMachine.Utf8
