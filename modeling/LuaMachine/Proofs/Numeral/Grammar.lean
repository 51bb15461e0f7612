import LuaMachine.Proofs.Numeral.Text

namespace LuaMachine.Numeral

open Text

def Digits (ds : List Char) : Prop := ds ≠ [] ∧ ∀ c ∈ ds, c.isDigit = true

def IsHexDigit (c : Char) : Prop := ∃ d, digit? 16 c = some d

/-- Digits with at most one point among them: those before it and those after it. -/
inductive Pointed (digit : Char → Prop) : List Char → List Char → List Char → Prop where
  | whole {ds} : (∀ c ∈ ds, digit c) → Pointed digit ds ds []
  | point {ds fs} : (∀ c ∈ ds ++ fs, digit c) → Pointed digit (ds ++ '.' :: fs) ds fs

/-- A mark, an optional sign and at least one decimal digit, or nothing; and the value. -/
inductive Exponent (mark : Char → Bool) : List Char → Int → Prop where
  | absent : Exponent mark [] 0
  | given {c ds} (sign : Sign) : mark c = true → Digits ds →
    Exponent mark (c :: (sign.chars ++ ds)) (Integer.withSign sign.isMinus (decimalValue ds))

inductive FloatText (digit : Char → Prop) (mark : Char → Bool) :
    List Char → List Char → List Char → Int → Prop where
  | intro {mantissa whole fraction tail e} : Pointed digit mantissa whole fraction →
    whole ++ fraction ≠ [] → Exponent mark tail e →
    FloatText digit mark (mantissa ++ tail) whole fraction e

def isMark (c : Char) : Bool := c = 'e' || c = 'E'

/-- Numerals without sign. The exponent of a hexadecimal float is in the range. -/
inductive Unsigned (range : Int → Prop) : List Char → Prop where
  | integer {ds} : Digits ds → Unsigned range ds
  | float {text whole fraction e} :
    FloatText (·.isDigit = true) isMark text whole fraction e → Unsigned range text
  | hexInteger {x ds} : x = 'x' ∨ x = 'X' → ds ≠ [] → (∀ c ∈ ds, IsHexDigit c) →
    Unsigned range ('0' :: x :: ds)
  | hexFloat {x text whole fraction e} : x = 'x' ∨ x = 'X' →
    FloatText IsHexDigit isHexMark text whole fraction e → range e →
    Unsigned range ('0' :: x :: text)

def IsNumeral (blank : Char → Prop) (range : Int → Prop) (s : Bytes) : Prop :=
  ∃ left body right, ∃ sign : Sign,
    s = (left ++ (sign.chars ++ body) ++ right).flatMap String.utf8EncodeChar ∧
    (∀ c ∈ left, blank c) ∧ (∀ c ∈ right, blank c) ∧ Unsigned range body

def InRange (e : Int) : Prop := Int32.minValue.toInt ≤ e ∧ e ≤ Int32.maxValue.toInt

instance (e : Int) : Decidable (InRange e) := inferInstanceAs (Decidable (_ ∧ _))

variable {digit : Char → Prop} {mark : Char → Bool} {range : Int → Prop} {c : Char} {e z : Int}
  {text mantissa tail whole fraction ds : List Char} {negative : Bool}

theorem Pointed.mem (h : Pointed digit text whole fraction) : ∀ c ∈ text, digit c ∨ c = '.' := by
  cases h with
  | whole h => exact fun c hc => .inl (h c hc)
  | point h =>
    intro c hc
    obtain hc | hc := List.mem_append.mp hc
    · exact .inl (h c (List.mem_append_left _ hc))
    · obtain rfl | hc := List.mem_cons.mp hc
      · exact .inr rfl
      · exact .inl (h c (List.mem_append_right _ hc))

theorem Pointed.cons (hc : digit c) (h : Pointed digit text whole fraction) :
    Pointed digit (c :: text) (c :: whole) fraction := by
  cases h with
  | whole h => exact .whole (List.forall_mem_cons.mpr ⟨hc, h⟩)
  | point h => exact @Pointed.point _ (c :: whole) fraction (List.forall_mem_cons.mpr ⟨hc, h⟩)

theorem Exponent.head (h : Exponent mark tail e) : ∀ c ∈ tail.head?, mark c = true := by
  cases h with
  | absent => nofun
  | given sign hc hd =>
    rintro _ ⟨⟩
    exact hc

theorem span_mark (hm : ∀ c ∈ mantissa, mark c = false) (ht : ∀ c ∈ tail.head?, mark c = true) :
    (mantissa ++ tail).takeWhile (!mark ·) = mantissa ∧
      (mantissa ++ tail).dropWhile (!mark ·) = tail := by
  have hp : ∀ c ∈ mantissa, (!mark c) = true := fun c hc => by rw [hm c hc]; rfl
  rw [List.takeWhile_append_of_pos hp, List.dropWhile_append_of_pos hp]
  cases tail with
  | nil => exact ⟨List.append_nil _, rfl⟩
  | cons c tail =>
    have hc : ¬(!mark c) = true := by simp [ht c rfl]
    rw [List.takeWhile_cons_of_neg (p := (!mark ·)) hc,
      List.dropWhile_cons_of_neg (p := (!mark ·)) hc, List.append_nil]
    exact ⟨rfl, rfl⟩

theorem head_dropWhile_mark (text : List Char) :
    ∀ c ∈ (text.dropWhile (!mark ·)).head?, mark c = true := by
  intro c hc
  have h := List.head?_dropWhile_not (!mark ·) text
  rw [Option.mem_def.mp hc] at h
  simpa using h

theorem Digits.head (h : Digits ds) : ∀ c ∈ ds.head?, c ≠ '+' ∧ c ≠ '-' := by
  intro c hc
  have hd := h.2 c (List.mem_of_mem_head? hc)
  constructor <;> rintro rfl <;> exact absurd hd (by decide)

theorem signedDecimal?_eq_some_iff : signedDecimal? text = some z ↔
    ∃ (sign : Sign) (ds : List Char), text = sign.chars ++ ds ∧ Digits ds ∧
      z = Integer.withSign sign.isMinus (decimalValue ds) := by
  constructor
  · intro h
    obtain ⟨sign, ht, hs⟩ := exists_sign text
    rw [signedDecimal?] at h
    dsimp only at h
    split at h
    · cases h
    · next hd =>
      cases h
      refine ⟨sign, _, ht, ?_, by rw [hs]⟩
      simpa [Digits] using hd
  · rintro ⟨sign, ds, rfl, hd, rfl⟩
    have hn : ¬(ds.isEmpty || !ds.all Char.isDigit) = true := by simpa [Digits] using hd
    rw [signedDecimal?, splitSign_chars sign hd.head]
    exact if_neg hn

def exponent? : List Char → Option Int
  | [] => some 0
  | _ :: text => signedDecimal? text

theorem exponent?_eq_some_iff (ht : ∀ c ∈ tail.head?, mark c = true) :
    exponent? tail = some e ↔ Exponent mark tail e := by
  cases tail with
  | nil =>
    constructor
    · rintro ⟨⟩
      exact .absent
    · rintro ⟨⟩
      rfl
  | cons c tail =>
    rw [exponent?, signedDecimal?_eq_some_iff]
    constructor
    · rintro ⟨sign, ds, rfl, hd, rfl⟩
      exact .given sign (ht c rfl) hd
    · rintro ⟨⟩
      exact ⟨_, _, rfl, ‹_›, rfl⟩

theorem mantissa?_eq_some_iff {n places : Nat} : mantissa? text = some (n, places) ↔
    ∃ whole fraction, Pointed (·.isDigit = true) text whole fraction ∧ whole ++ fraction ≠ [] ∧
      n = decimalValue (whole ++ fraction) ∧ places = fraction.length := by
  constructor
  · intro h
    have ht := List.takeWhile_append_dropWhile (p := Char.isDigit) (l := text)
    have hw : ∀ c ∈ text.takeWhile Char.isDigit, c.isDigit = true :=
      fun c hc => List.mem_takeWhile_imp hc
    rw [mantissa?] at h
    generalize text.takeWhile Char.isDigit = whole at h ht hw
    generalize text.dropWhile Char.isDigit = rest at h ht
    subst ht
    split at h
    · cases h
    · next fraction hf =>
      dsimp only at h
      obtain ⟨hn, rfl, rfl⟩ : whole ++ fraction ≠ [] ∧ n = decimalValue (whole ++ fraction) ∧
          places = fraction.length := by
        split at h
        · cases h
        · next hn =>
          cases h
          exact ⟨by simpa using hn, rfl, rfl⟩
      refine ⟨whole, fraction, ?_, hn, rfl, rfl⟩
      split at hf
      · cases hf
        rw [List.append_nil]
        exact .whole hw
      · split at hf
        · next hd =>
          cases hf
          exact .point (List.forall_mem_append.mpr ⟨hw, List.all_eq_true.mp hd⟩)
        · cases hf
      · cases hf
  · rintro ⟨whole, fraction, hp, hn, rfl, rfl⟩
    have he : (whole ++ fraction).isEmpty = false := List.isEmpty_eq_false_iff.mpr hn
    cases hp with
    | whole h =>
      rw [mantissa?, List.takeWhile_eq_self_iff.mpr h, List.dropWhile_eq_nil_iff.mpr h]
      dsimp only
      rw [he, if_neg Bool.false_ne_true]
    | point h =>
      have hw := fun c hc => h c (List.mem_append_left _ hc)
      have hf : fraction.all Char.isDigit = true :=
        List.all_eq_true.mpr fun c hc => h c (List.mem_append_right _ hc)
      have hs := @span_mark (fun c => !c.isDigit) whole ('.' :: fraction) (by simpa using hw)
        (by rintro _ ⟨⟩; rfl)
      simp only [Bool.not_not] at hs
      simp only [mantissa?, hs.1, hs.2, hf, if_true, he, Bool.false_eq_true, if_false]

/-- The first mark ends the mantissa. -/
theorem floatText_iff (hd : ∀ c, digit c → mark c = false) (hp : mark '.' = false) :
    FloatText digit mark text whole fraction e ↔
      Pointed digit (text.takeWhile (!mark ·)) whole fraction ∧ whole ++ fraction ≠ [] ∧
        exponent? (text.dropWhile (!mark ·)) = some e := by
  rw [exponent?_eq_some_iff (head_dropWhile_mark text)]
  constructor
  · rintro ⟨hm, hn, ht⟩
    have hs := span_mark (fun c hc => (hm.mem c hc).elim (hd c) fun h => h ▸ hp) ht.head
    rw [hs.1, hs.2]
    exact ⟨hm, hn, ht⟩
  · rintro ⟨hm, hn, ht⟩
    have h := FloatText.intro hm hn ht
    rwa [List.takeWhile_append_dropWhile] at h

theorem isMark_digit (h : c.isDigit = true) : isMark c = false := by
  rw [isMark, Bool.or_eq_false_iff, decide_eq_false_iff_not, decide_eq_false_iff_not]
  constructor <;> rintro rfl <;> exact absurd h (by decide)

theorem decimalFloat_iff : FloatText (·.isDigit = true) isMark text whole fraction e ↔
    Pointed (·.isDigit = true) (text.takeWhile (!isMark ·)) whole fraction ∧
      whole ++ fraction ≠ [] ∧ exponent? (text.dropWhile (!isMark ·)) = some e :=
  floatText_iff (fun _ => isMark_digit) rfl

def floatOf? (negative : Bool) : Option (Nat × Nat) → Option Int → Option Double
  | some (digits, places), some e => some (Double.ofDecimal negative digits (e - places))
  | _, _ => none

theorem decimal?_eq_floatOf? : decimal? negative text =
    floatOf? negative (mantissa? (text.takeWhile (!isMark ·))) (exponent? (text.dropWhile (!isMark ·))) :=
  rfl

theorem floatOf?_eq_some_iff {m : Option (Nat × Nat)} {exponent : Option Int} {x : Double} :
    floatOf? negative m exponent = some x ↔
      ∃ n places e, m = some (n, places) ∧ exponent = some e ∧
        x = Double.ofDecimal negative n (e - places) := by
  constructor
  · intro h
    unfold floatOf? at h
    split at h
    · cases h
      exact ⟨_, _, _, rfl, rfl, rfl⟩
    · cases h
  · rintro ⟨n, places, e, rfl, rfl, rfl⟩
    rfl

theorem decimal?_eq_some_iff {x : Double} : decimal? negative text = some x ↔
    ∃ whole fraction e, FloatText (·.isDigit = true) isMark text whole fraction e ∧
      x = Double.ofDecimal negative (decimalValue (whole ++ fraction)) (e - fraction.length) := by
  simp only [decimalFloat_iff, decimal?_eq_floatOf?, floatOf?_eq_some_iff, mantissa?_eq_some_iff]
  constructor
  · rintro ⟨_, _, e, ⟨whole, fraction, hp, hn, rfl, rfl⟩, he, rfl⟩
    exact ⟨whole, fraction, e, ⟨hp, hn, he⟩, rfl⟩
  · rintro ⟨whole, fraction, e, ⟨hp, hn, he⟩, rfl⟩
    exact ⟨_, _, e, ⟨whole, fraction, hp, hn, rfl, rfl⟩, he, rfl⟩

def addHexDigit (x : Double) (c : Char) : Double :=
  (x.mul (.ofInt 16)).add (.ofInt ((digit? 16 c).getD 0))

/-- The value of the digits of a hexadecimal mantissa, rounded at every digit. -/
def hexValue (ds : List Char) : Double := ds.foldl addHexDigit (.zero false)

theorem not_isHexDigit_point : ¬IsHexDigit '.' := by
  rintro ⟨d, hd⟩
  cases hd

def addDigit (m : HexMantissa) (c : Char) : HexMantissa :=
  { m with
    value := addHexDigit m.value c
    scale := if m.seenPoint then m.scale - 4 else m.scale
    seenDigit := true }

theorem push_digit (m : HexMantissa) (h : IsHexDigit c) : m.push c = some (addDigit m c) := by
  obtain ⟨d, hd⟩ := h
  have hc : c ≠ '.' := fun hc => not_isHexDigit_point (hc ▸ ⟨d, hd⟩)
  rw [HexMantissa.push, if_neg hc, hd, addDigit, addHexDigit, hd]
  rfl

/-- Digits after the point lower the scale by four each. -/
theorem foldlM_push_digits (m : HexMantissa) (h : ∀ c ∈ ds, IsHexDigit c) : ds.foldlM HexMantissa.push m =
    some { m with
      value := ds.foldl addHexDigit m.value
      scale := if m.seenPoint then m.scale + Int32.ofInt (-4 * ds.length) else m.scale
      seenDigit := m.seenDigit || !ds.isEmpty } := by
  induction ds generalizing m with
  | nil => cases m; simp
  | cons c ds ih =>
    obtain ⟨hc, hd⟩ := List.forall_mem_cons.mp h
    have hs (n : Nat) : Int32.ofInt (-4 * (n + 1 : Nat)) = -4 + Int32.ofInt (-4 * n) := by
      rw [Nat.cast_succ, mul_add, add_comm, Int32.ofInt_add]
      rfl
    rw [List.foldlM_cons, push_digit m hc]
    change ds.foldlM HexMantissa.push _ = _
    rw [ih _ hd, List.length_cons, hs]
    rw [addDigit]
    congr 2
    · dsimp only
      split
      · rw [Int32.sub_eq_add_neg, Int32.add_assoc]
      · rfl
    · simp

theorem foldlM_push_pointed (h : Pointed IsHexDigit text whole fraction) :
    ∃ seenPoint, text.foldlM HexMantissa.push {} = some {
      value := hexValue (whole ++ fraction)
      scale := Int32.ofInt (-4 * fraction.length)
      seenPoint
      seenDigit := !(whole ++ fraction).isEmpty } := by
  cases h with
  | whole h =>
    refine ⟨false, ?_⟩
    rw [foldlM_push_digits _ h, List.append_nil]
    rfl
  | point h =>
    refine ⟨true, ?_⟩
    obtain ⟨hw, hf⟩ := List.forall_mem_append.mp h
    rw [List.foldlM_append, foldlM_push_digits _ hw]
    change (fraction.foldlM HexMantissa.push _) = _
    rw [foldlM_push_digits _ hf, hexValue, List.foldl_append]
    cases whole <;> simp

theorem push_eq_some {m m' : HexMantissa} (h : m.push c = some m') :
    c = '.' ∧ m.seenPoint = false ∧ m' = { m with seenPoint := true } ∨
      IsHexDigit c ∧ m' = addDigit m c := by
  by_cases hc : c = '.'
  · rw [HexMantissa.push, if_pos hc] at h
    split at h
    · cases h
    · next hm =>
      cases h
      exact .inl ⟨hc, Bool.eq_false_iff.mpr hm, rfl⟩
  · have hd : IsHexDigit c := by
      rw [HexMantissa.push, if_neg hc] at h
      obtain ⟨d, hd, -⟩ := Option.map_eq_some_iff.mp h
      obtain ⟨n, hn, -⟩ := Option.bind_eq_some_iff.mp hd
      exact ⟨n, hn⟩
    cases h.symm.trans (push_digit m hd)
    exact .inr ⟨hd, rfl⟩

theorem isHexDigit_of_foldlM_push {m m' : HexMantissa} (hm : m.seenPoint = true)
    (h : text.foldlM HexMantissa.push m = some m') : ∀ c ∈ text, IsHexDigit c := by
  induction text generalizing m with
  | nil => nofun
  | cons c text ih =>
    obtain ⟨m₁, hp, h⟩ := Option.bind_eq_some_iff.mp h
    obtain ⟨-, hf, -⟩ | ⟨hc, rfl⟩ := push_eq_some hp
    · cases hm.symm.trans hf
    · exact List.forall_mem_cons.mpr ⟨hc, @ih (addDigit m c) hm h⟩

theorem pointed_of_foldlM_push {m m' : HexMantissa} (hm : m.seenPoint = false)
    (h : text.foldlM HexMantissa.push m = some m') :
    ∃ whole fraction, Pointed IsHexDigit text whole fraction := by
  induction text generalizing m with
  | nil => exact ⟨[], [], .whole nofun⟩
  | cons c text ih =>
    obtain ⟨m₁, hp, ht⟩ := Option.bind_eq_some_iff.mp h
    obtain ⟨rfl, -, rfl⟩ | ⟨hc, rfl⟩ := push_eq_some hp
    · exact ⟨[], text, @Pointed.point _ [] text (isHexDigit_of_foldlM_push rfl ht)⟩
    · obtain ⟨whole, fraction, hw⟩ := @ih (addDigit m c) hm ht
      exact ⟨c :: whole, fraction, hw.cons hc⟩

theorem isHexMark_digit (h : IsHexDigit c) : isHexMark c = false := by
  obtain ⟨d, hd⟩ := h
  rw [isHexMark, Bool.or_eq_false_iff, decide_eq_false_iff_not, decide_eq_false_iff_not]
  constructor <;> rintro rfl <;> cases hd

theorem hexFloat_iff : FloatText IsHexDigit isHexMark text whole fraction e ↔
    Pointed IsHexDigit (text.takeWhile (!isHexMark ·)) whole fraction ∧
      whole ++ fraction ≠ [] ∧ exponent? (text.dropWhile (!isHexMark ·)) = some e :=
  floatText_iff (fun _ => isHexMark_digit) rfl

theorem hexExponent?_eq_some_iff {i : Int32} : hexExponent? tail = some i ↔
    ∃ e, exponent? tail = some e ∧ InRange e ∧ i = Int32.ofInt e := by
  cases tail with
  | nil =>
    constructor
    · rintro ⟨⟩
      exact ⟨0, rfl, by decide, rfl⟩
    · rintro ⟨e, ⟨⟩, -, rfl⟩
      rfl
  | cons c text =>
    rw [hexExponent?, exponent?]
    cases signedDecimal? text with
    | none => simp
    | some e =>
      constructor
      · intro h
        dsimp only at h
        split at h
        · next hi =>
          cases h
          exact ⟨e, rfl, hi, rfl⟩
        · cases h
      · rintro ⟨_, ⟨⟩, hi, rfl⟩
        exact if_pos hi

/-- A hexadecimal float is the value of its digits times a power of two. The exponent is computed
with 32 bits. -/
theorem hexFloat?_eq_some_iff {x : Double} : hexFloat? text = some x ↔
    ∃ whole fraction e, FloatText IsHexDigit isHexMark text whole fraction e ∧ InRange e ∧
      x = (hexValue (whole ++ fraction)).mul
        (Double.twoPow (Int32.ofInt e + Int32.ofInt (-4 * fraction.length)).toInt) := by
  simp only [hexFloat_iff]
  constructor
  · intro h
    rw [hexFloat?] at h
    split at h
    · next m i hm hi =>
      obtain ⟨whole, fraction, hp⟩ := pointed_of_foldlM_push rfl hm
      obtain ⟨seenPoint, hs⟩ := foldlM_push_pointed hp
      obtain ⟨e, he, hr, rfl⟩ := hexExponent?_eq_some_iff.mp hi
      cases hm.symm.trans hs
      split at h
      · next hn =>
        cases h
        exact ⟨whole, fraction, e, ⟨hp, by simpa using hn, he⟩, hr, rfl⟩
      · cases h
    · cases h
  · rintro ⟨whole, fraction, e, ⟨hp, hn, he⟩, hr, rfl⟩
    obtain ⟨seenPoint, hs⟩ := foldlM_push_pointed hp
    rw [hexFloat?, hs, hexExponent?_eq_some_iff.mpr ⟨e, he, hr, rfl⟩]
    exact if_pos (by simpa using hn)

theorem isSome_readDecimal_iff : (readDecimal negative text).isSome ↔
    ∃ whole fraction e, FloatText (·.isDigit = true) isMark text whole fraction e := by
  have hs : (decimal? negative text).isSome ↔
      ∃ whole fraction e, FloatText (·.isDigit = true) isMark text whole fraction e := by
    rw [Option.isSome_iff_exists]
    constructor
    · rintro ⟨x, hx⟩
      obtain ⟨whole, fraction, e, h, -⟩ := decimal?_eq_some_iff.mp hx
      exact ⟨whole, fraction, e, h⟩
    · rintro ⟨whole, fraction, e, h⟩
      exact ⟨_, decimal?_eq_some_iff.mpr ⟨whole, fraction, e, h, rfl⟩⟩
  rw [← hs]
  by_cases hd : text ≠ [] ∧ ∀ c ∈ text, c.isDigit = true
  · -- digits alone are a number either way
    rw [readDecimal_digits negative hd.1 hd.2, decimal?_digits negative hd.1 hd.2]
    simp
  · have hn : ¬(!text.isEmpty && text.all Char.isDigit) = true := by simpa using hd
    rw [readDecimal, if_neg hn, Option.isSome_map]

theorem isSome_mapM_digit?_iff {base : Nat} :
    (text.mapM (digit? base)).isSome ↔ ∀ c ∈ text, ∃ d, digit? base c = some d := by
  induction text with
  | nil => simp
  | cons c text ih =>
    rw [List.forall_mem_cons, ← ih, List.mapM_cons]
    cases hc : digit? base c <;> cases ht : text.mapM (digit? base) <;> simp

theorem isSome_hexInteger?_iff : (hexInteger? text).isSome ↔ ∀ c ∈ text, IsHexDigit c := by
  rw [hexInteger?, Option.isSome_map]
  exact isSome_mapM_digit?_iff

theorem isSome_hexFloat?_iff : (hexFloat? text).isSome ↔
    ∃ whole fraction e, FloatText IsHexDigit isHexMark text whole fraction e ∧ InRange e := by
  rw [Option.isSome_iff_exists]
  constructor
  · rintro ⟨x, hx⟩
    obtain ⟨whole, fraction, e, h, hr, -⟩ := hexFloat?_eq_some_iff.mp hx
    exact ⟨whole, fraction, e, h, hr⟩
  · rintro ⟨whole, fraction, e, h, hr⟩
    exact ⟨_, hexFloat?_eq_some_iff.mpr ⟨whole, fraction, e, h, hr, rfl⟩⟩

theorem floatText_hexDigits (hn : ds ≠ []) (h : ∀ c ∈ ds, IsHexDigit c) :
    FloatText IsHexDigit isHexMark ds ds [] 0 := by
  have ht := FloatText.intro (.whole h) (by rwa [List.append_nil]) (@Exponent.absent isHexMark)
  rwa [List.append_nil] at ht

theorem FloatText.digits (h : FloatText digit mark text whole fraction e)
    (hc : ∀ c ∈ text, c ≠ '.' ∧ mark c = false) : text ≠ [] ∧ ∀ c ∈ text, digit c := by
  obtain ⟨hm, hn, ht⟩ := h
  cases ht with
  | given sign hk hd => exact absurd hk (by simp [hc _ (List.mem_append_right _ List.mem_cons_self)])
  | absent =>
    rw [List.append_nil] at hc ⊢
    cases hm with
    | whole h => exact ⟨by simpa using hn, h⟩
    | point h => exact absurd rfl (hc '.' (by simp)).1

theorem isSome_readHex_iff : (readHex negative text).isSome ↔
    ∃ whole fraction e, FloatText IsHexDigit isHexMark text whole fraction e ∧ InRange e := by
  rw [readHex]
  split
  · next hn =>
    obtain rfl := List.isEmpty_iff.mp hn
    refine iff_of_false Bool.false_ne_true ?_
    rw [← isSome_hexFloat?_iff]
    exact Bool.false_ne_true
  · next hn =>
    split
    · rw [Option.isSome_map, isSome_hexFloat?_iff]
    · next hp =>
      rw [Option.isSome_map, isSome_hexInteger?_iff]
      constructor
      · intro h
        exact ⟨text, [], 0, floatText_hexDigits (mt List.isEmpty_iff.mpr hn) h, by decide⟩
      · rintro ⟨whole, fraction, e, h, -⟩
        exact (h.digits (by simpa using hp)).2

theorem FloatText.mem (h : FloatText digit mark text whole fraction e) : ∀ c ∈ text,
    digit c ∨ c = '.' ∨ mark c = true ∨ c = '+' ∨ c = '-' ∨ c.isDigit = true := by
  obtain ⟨hm, -, ht⟩ := h
  intro c hc
  obtain hc | hc := List.mem_append.mp hc
  · exact (hm.mem c hc).imp_right .inl
  · cases ht with
    | absent => cases hc
    | given sign hk hd =>
      obtain rfl | hc := List.mem_cons.mp hc
      · exact .inr (.inr (.inl hk))
      · refine .inr (.inr (.inr ?_))
        obtain hs | hc := List.mem_append.mp hc
        · exact (Sign.mem_chars hs).imp_right .inl
        · exact .inr (.inr (hd.2 c hc))

theorem isHexPrefixed_iff :
    isHexPrefixed text = true ↔ ∃ x rest, text = '0' :: x :: rest ∧ (x = 'x' ∨ x = 'X') := by
  constructor
  · intro h
    unfold isHexPrefixed at h
    split at h
    · next x rest => exact ⟨x, rest, rfl, by simpa using h⟩
    · cases h
  · rintro ⟨x, rest, rfl, hx⟩
    simpa [isHexPrefixed] using hx

theorem FloatText.not_isHexPrefixed (h : FloatText (·.isDigit = true) isMark text whole fraction e) :
    isHexPrefixed text = false := by
  rw [Bool.eq_false_iff]
  intro hp
  obtain ⟨x, rest, rfl, hx⟩ := isHexPrefixed_iff.mp hp
  have hm := h.mem x (by simp)
  obtain rfl | rfl := hx <;> exact absurd hm (by decide)

def readUnsigned (negative : Bool) (text : List Char) : Option Number :=
  if isHexPrefixed text then readHex negative (text.drop 2) else readDecimal negative text

theorem isSome_readUnsigned_iff : (readUnsigned negative text).isSome ↔ Unsigned InRange text := by
  rw [readUnsigned]
  constructor
  · intro h
    split at h
    · next hp =>
      obtain ⟨x, rest, rfl, hx⟩ := isHexPrefixed_iff.mp hp
      obtain ⟨whole, fraction, e, ht, hr⟩ := isSome_readHex_iff.mp h
      exact .hexFloat hx ht hr
    · obtain ⟨whole, fraction, e, ht⟩ := isSome_readDecimal_iff.mp h
      exact .float ht
  · have hf {whole fraction e} (h : FloatText (·.isDigit = true) isMark text whole fraction e) :
        (if isHexPrefixed text then readHex negative (text.drop 2)
          else readDecimal negative text).isSome := by
      rw [h.not_isHexPrefixed, if_neg Bool.false_ne_true]
      exact isSome_readDecimal_iff.mpr ⟨whole, fraction, e, h⟩
    intro h
    cases h with
    | integer h =>
      have ht := FloatText.intro (.whole h.2) (by simpa using h.1) (@Exponent.absent isMark)
      rw [List.append_nil] at ht
      exact hf ht
    | float h => exact hf h
    | hexInteger hx hn hd =>
      rw [if_pos (isHexPrefixed_iff.mpr ⟨_, _, rfl, hx⟩)]
      exact isSome_readHex_iff.mpr ⟨_, _, 0, floatText_hexDigits hn hd, by decide⟩
    | hexFloat hx h hr =>
      rw [if_pos (isHexPrefixed_iff.mpr ⟨_, _, rfl, hx⟩)]
      exact isSome_readHex_iff.mpr ⟨_, _, _, h, hr⟩

def Visible (c : Char) : Prop := 0x20 < c.toNat ∧ c.toNat < 0x80

theorem visible_of_isDigit (h : c.isDigit = true) : Visible c := by
  obtain ⟨hl, hu⟩ := toNat_of_isDigit h
  exact ⟨by omega, by omega⟩

theorem visible_of_isHexDigit (h : IsHexDigit c) : Visible c := by
  obtain ⟨d, hd⟩ := h
  have hr := toNat_of_digitValue? (digit?_eq_some_iff.mp hd).1
  exact ⟨by omega, by omega⟩

theorem FloatText.visible (hd : ∀ c, digit c → Visible c) (hm : ∀ c, mark c = true → Visible c)
    (h : FloatText digit mark text whole fraction e) : ∀ c ∈ text, Visible c := by
  intro c hc
  obtain h | rfl | h | rfl | rfl | h := h.mem c hc
  · exact hd c h
  · exact ⟨by decide, by decide⟩
  · exact hm c h
  · exact ⟨by decide, by decide⟩
  · exact ⟨by decide, by decide⟩
  · exact visible_of_isDigit h

theorem Unsigned.visible (h : Unsigned range text) : ∀ c ∈ text, Visible c := by
  have hx {x rest} (hx : x = 'x' ∨ x = 'X') (h : ∀ c ∈ rest, Visible c) :
      ∀ c ∈ '0' :: x :: rest, Visible c :=
    List.forall_mem_cons.mpr ⟨⟨by decide, by decide⟩, List.forall_mem_cons.mpr
      ⟨by obtain rfl | rfl := hx <;> exact ⟨by decide, by decide⟩, h⟩⟩
  cases h with
  | integer h => exact fun c hc => visible_of_isDigit (h.2 c hc)
  | float h =>
    refine h.visible (fun _ => visible_of_isDigit) fun c hc => ?_
    obtain rfl | rfl : c = 'e' ∨ c = 'E' := by simpa [isMark] using hc
    all_goals exact ⟨by decide, by decide⟩
  | hexInteger hx' hn h => exact hx hx' fun c hc => visible_of_isHexDigit (h c hc)
  | hexFloat hx' h hr =>
    refine hx hx' (h.visible (fun _ => visible_of_isHexDigit) fun c hc => ?_)
    obtain rfl | rfl : c = 'p' ∨ c = 'P' := by simpa [isHexMark] using hc
    all_goals exact ⟨by decide, by decide⟩

theorem Unsigned.head (h : Unsigned range text) : ∀ c ∈ text.head?, c ≠ '+' ∧ c ≠ '-' := by
  cases h with
  | integer h => exact h.head
  | hexInteger | hexFloat =>
    rintro _ ⟨⟩
    exact ⟨by decide, by decide⟩
  | float h =>
    obtain ⟨hm, hn, ht⟩ := h
    -- the first character is one of the mantissa, which is not empty
    have he : ∀ {text whole fraction}, Pointed (·.isDigit = true) text whole fraction →
        whole ++ fraction ≠ [] → ∃ c rest, text = c :: rest
      | _, _, _, .whole _, hn => List.exists_cons_of_ne_nil (by simpa using hn)
      | _, _, _, .point _, _ => List.exists_cons_of_ne_nil (by simp)
    obtain ⟨c, mantissa, rfl⟩ := he hm hn
    rintro _ ⟨⟩
    obtain hd | rfl := hm.mem c List.mem_cons_self
    · constructor <;> rintro rfl <;> exact absurd hd (by decide)
    · exact ⟨by decide, by decide⟩

theorem not_isWhiteSpace (h : Visible c) : isWhiteSpace c = false := by
  simp only [isWhiteSpace, Bool.or_eq_false_iff, Bool.and_eq_false_iff, decide_eq_false_iff_not,
    beq_eq_false_iff_ne]
  obtain ⟨hl, hu⟩ := h
  omega

theorem read_spaced {s : Bytes} {left body right : List Char} (sign : Sign)
    (hs : s = (left ++ (sign.chars ++ body) ++ right).flatMap String.utf8EncodeChar)
    (hl : ∀ c ∈ left, isWhiteSpace c = true) (hr : ∀ c ∈ right, isWhiteSpace c = true)
    (hh : ∀ c ∈ body.head?, isWhiteSpace c = false ∧ c ≠ '+' ∧ c ≠ '-')
    (ht : ∀ c ∈ body.getLast?, isWhiteSpace c = false) :
    read s = readUnsigned sign.isMinus body := by
  have hs' : ∀ c ∈ sign.chars, isWhiteSpace c = false := fun c hc => by
    obtain rfl | rfl := Sign.mem_chars hc <;> rfl
  have hh' : ∀ c ∈ (sign.chars ++ body).head?, isWhiteSpace c = false := by
    cases sign with
    | absent => exact fun c hc => (hh c hc).1
    | plus | minus => exact fun c hc => hs' c (List.mem_of_mem_head? hc)
  have ht' : ∀ c ∈ (sign.chars ++ body).getLast?, isWhiteSpace c = false := by
    rw [List.getLast?_append]
    intro c hc
    obtain hc | ⟨-, hc⟩ := Option.or_eq_some_iff.mp hc
    · exact ht c hc
    · exact hs' c (List.mem_of_getLast? hc)
  rw [read, Utf8.decode?_eq_some_iff.mpr hs]
  dsimp only
  rw [trim_blanks hl hr hh' ht', splitSign_chars sign fun c hc => (hh c hc).2, readUnsigned]

theorem isNumeral_of_read {s : Bytes} (h : (read s).isSome) :
    IsNumeral (isWhiteSpace · = true) InRange s := by
  obtain ⟨text, ht⟩ : ∃ text, Utf8.decode? s = some text := by
    rw [read] at h
    split at h
    · cases h
    · next text ht => exact ⟨text, ht⟩
  obtain ⟨left, right, hs, hl, hr⟩ := exists_trim isWhiteSpace text
  obtain ⟨sign, hb, hn⟩ := exists_sign (trim isWhiteSpace text)
  refine ⟨left, (splitSign (trim isWhiteSpace text)).2, right, sign, ?_, hl, hr, ?_⟩
  · rw [← hb, ← hs]
    exact Utf8.decode?_eq_some_iff.mp ht
  · rw [read, ht] at h
    exact isSome_readUnsigned_iff.mp h

theorem IsNumeral.read {s : Bytes} (h : IsNumeral (isWhiteSpace · = true) InRange s) :
    (read s).isSome := by
  obtain ⟨left, body, right, sign, hs, hl, hr, hu⟩ := h
  have hv := fun c hc => not_isWhiteSpace (hu.visible c hc)
  rw [read_spaced sign hs hl hr (fun c hc => ⟨hv c (List.mem_of_mem_head? hc), hu.head c hc⟩)
    fun c hc => hv c (List.mem_of_getLast? hc)]
  exact isSome_readUnsigned_iff.mpr hu

/-- The byte strings that denote numbers are the numerals, with Unicode white space around them
and 32 bits for a binary exponent. -/
theorem isSome_read_iff (s : Bytes) :
    (read s).isSome ↔ IsNumeral (isWhiteSpace · = true) InRange s :=
  ⟨isNumeral_of_read, IsNumeral.read⟩

def asciiBlanks : List Char := [' ', '\t', '\n', '\x0B', '\x0C', '\r']

theorem IsNumeral.ascii {blank : Char → Prop} {s : Bytes} (h : IsNumeral blank range s)
    (hb : ∀ c, blank c → c.toNat < 0x80) : ∀ b ∈ s, b.toNat < 0x80 := by
  obtain ⟨left, body, right, sign, rfl, hl, hr, hu⟩ := h
  have ha : ∀ c ∈ left ++ (sign.chars ++ body) ++ right, c.toNat < 0x80 := by
    intro c hc
    simp only [List.mem_append] at hc
    obtain (hc | hc | hc) | hc := hc
    · exact hb c (hl c hc)
    · obtain rfl | rfl := Sign.mem_chars hc <;> decide
    · exact (hu.visible c hc).2
    · exact hb c (hr c hc)
  rw [flatMap_ascii ha]
  intro b hb
  obtain ⟨c, hc, rfl⟩ := List.mem_map.mp hb
  rw [toNat_byte (ha c hc)]
  exact ha c hc

/-- White space other than the blanks of ASCII is allowed around numerals, and a binary exponent
that does not fit 32 bits is refused. -/
theorem isSome_read_differs :
    ¬((read (Bytes.ofString "\u00A01")).isSome ↔
      IsNumeral (· ∈ asciiBlanks) (fun _ => True) (Bytes.ofString "\u00A01")) ∧
    ¬((read (Bytes.ofString "0x1p2147483648")).isSome ↔
      IsNumeral (· ∈ asciiBlanks) (fun _ => True) (Bytes.ofString "0x1p2147483648")) := by
  constructor
  · intro h
    have hn := (h.mp (by decide)).ascii (by simp [asciiBlanks])
    exact absurd (hn 0xC2 (by decide)) (by decide)
  · intro h
    have hd : ∀ c ∈ ['1'], IsHexDigit c := List.forall_mem_singleton.mpr ⟨1, rfl⟩
    have he : Exponent isHexMark ('p' :: (Sign.absent.chars ++ "2147483648".toList)) 2147483648 :=
      .given .absent rfl ⟨by decide, List.all_eq_true.mp (by decide)⟩
    have hu : Unsigned (fun _ => True) ('0' :: 'x' :: (['1'] ++ _)) :=
      .hexFloat (.inl rfl) (.intro (.whole hd) (List.cons_ne_nil _ _) he) trivial
    have hf : (read (Bytes.ofString "0x1p2147483648")).isSome = false := by decide
    exact Bool.eq_false_iff.mp hf (h.mpr ⟨[], _, [], .absent, rfl, nofun, nofun, hu⟩)

end LuaMachine.Numeral
