import LuaMachine.Proofs.Numeral.Grammar

namespace LuaMachine

open Text

namespace Numeral

/-- No digit of the text takes the scale out of the 32 bits. -/
def StepsFit (m : HexMantissa) : List Char → Prop
  | [] => True
  | c :: text => (m.seenPoint = true → IsHexDigit c → InRange (m.scale.toInt - 4)) ∧
    ∀ m', m.push c = some m' → StepsFit m' text

structure ScaleFits (text : List Char) : Prop where
  steps : StepsFit {} (text.takeWhile (!isHexMark ·))
  sum : ∀ m i, (text.takeWhile (!isHexMark ·)).foldlM HexMantissa.push {} = some m →
    m.seenDigit = true → hexExponent? (text.dropWhile (!isHexMark ·)) = some i →
    InRange (i.toInt + m.scale.toInt)

def isHexDigit (c : Char) : Bool := (digit? 16 c).isSome

/-- The digits after the point, as far as the text is scanned. -/
def fractionDigits (text : List Char) : List Char :=
  match text.dropWhile isHexDigit with
  | '.' :: rest => rest.takeWhile isHexDigit
  | _ => []

variable {m m' : HexMantissa} {c : Char} {text whole fraction ds rest : List Char} {e : Int}
  {k : Nat} {s : Bytes} {negative : Bool}

theorem inRange_iff : InRange e ↔ -2 ^ 31 ≤ e ∧ e < 2 ^ 31 := by
  change -2 ^ 31 ≤ e ∧ e ≤ 2 ^ 31 - 1 ↔ _
  omega

theorem toInt_sub_four {i : Int32} (h : InRange (i.toInt - 4)) : (i - 4).toInt = i.toInt - 4 := by
  obtain ⟨hl, hu⟩ := inRange_iff.mp h
  rw [Int32.toInt_sub]
  exact Int.bmod_eq_of_le (by change _ ≤ i.toInt - 4; omega) (by change i.toInt - 4 < _; omega)

theorem toInt_ofInt (h : InRange e) : (Int32.ofInt e).toInt = e := by
  obtain ⟨hl, hu⟩ := inRange_iff.mp h
  rw [Int32.toInt_ofInt]
  exact Int.bmod_eq_of_le hl hu

theorem stepsFit_cons (h : IsHexDigit c) : StepsFit m (c :: text) ↔
    (m.seenPoint = true → InRange (m.scale.toInt - 4)) ∧ StepsFit (addDigit m c) text := by
  rw [StepsFit, push_digit m h]
  constructor
  · rintro ⟨hs, ht⟩
    exact ⟨fun hm => hs hm h, ht _ rfl⟩
  · rintro ⟨hs, ht⟩
    refine ⟨fun hm _ => hs hm, ?_⟩
    rintro _ ⟨⟩
    exact ht

theorem isHexDigit_iff : isHexDigit c = true ↔ IsHexDigit c := Option.isSome_iff_exists

theorem stepsFit_refused (h : ∀ c ∈ text.head?, m.push c = none) : StepsFit m text := by
  cases text with
  | nil => trivial
  | cons c text =>
    have hp := h c rfl
    refine ⟨fun _ hc => ?_, fun m' hm => ?_⟩
    · cases hp.symm.trans (push_digit m hc)
    · cases hp.symm.trans hm

theorem push_eq_none (h : ¬IsHexDigit c) (hc : c = '.' → m.seenPoint = true) : m.push c = none := by
  rw [Option.eq_none_iff_forall_ne_some]
  intro m' hp
  obtain ⟨hd, hf, -⟩ | ⟨hd, -⟩ := push_eq_some hp
  · exact absurd (hf.symm.trans (hc hd)) Bool.false_ne_true
  · exact h hd

/-- After the point each digit needs four more of the 32 bits' range. -/
theorem stepsFit_fraction (hm : m.seenPoint = true) (hs : m.scale.toInt = -4 * k)
    (h : ∀ c ∈ ds, IsHexDigit c) (hr : ∀ c ∈ rest.head?, ¬IsHexDigit c) :
    StepsFit m (ds ++ rest) ↔ 4 * (k + ds.length) ≤ 2 ^ 31 := by
  induction ds generalizing m k with
  | nil =>
    have := m.scale.le_toInt
    exact iff_of_true (stepsFit_refused fun c hc => push_eq_none (hr c hc) fun _ => hm)
      (by rw [List.length_nil]; omega)
  | cons c ds ih =>
    obtain ⟨hc, hd⟩ := List.forall_mem_cons.mp h
    rw [List.cons_append, stepsFit_cons hc, List.length_cons]
    by_cases hi : InRange (m.scale.toInt - 4)
    · have hk : (addDigit m c).scale.toInt = -4 * (k + 1 : Nat) := by
        rw [addDigit, hm, if_pos rfl, toInt_sub_four hi, hs]
        omega
      rw [@ih (addDigit m c) (k + 1) hm hk hd, and_iff_right fun _ => hi, Nat.add_assoc k 1,
        Nat.add_comm 1]
    · have hn : ¬4 * (k + (ds.length + 1)) ≤ 2 ^ 31 := by
        rw [inRange_iff] at hi
        omega
      exact iff_of_false (fun h => hi (h.1 hm)) hn

theorem stepsFit_whole (hm : m.seenPoint = false) (h : ∀ c ∈ ds, IsHexDigit c) :
    StepsFit m (ds ++ rest) ↔ ∀ m', ds.foldlM HexMantissa.push m = some m' → StepsFit m' rest := by
  induction ds generalizing m with
  | nil => simp
  | cons c ds ih =>
    obtain ⟨hc, hd⟩ := List.forall_mem_cons.mp h
    rw [List.cons_append, stepsFit_cons hc, @ih (addDigit m c) hm hd, List.foldlM_cons, push_digit m hc]
    exact and_iff_right fun h => absurd (hm.symm.trans h) Bool.false_ne_true

theorem stepsFit_point (hm : m.seenPoint = false) :
    StepsFit m ('.' :: text) ↔ StepsFit { m with seenPoint := true } text := by
  have hp : m.push '.' = some { m with seenPoint := true } := by
    rw [HexMantissa.push, if_pos rfl, if_neg (by rw [hm]; exact Bool.false_ne_true)]
  rw [StepsFit, hp]
  constructor
  · exact fun h => h.2 _ rfl
  · intro h
    refine ⟨fun hf => absurd (hm.symm.trans hf) Bool.false_ne_true, ?_⟩
    rintro _ ⟨⟩
    exact h

theorem mem_takeWhile_isHexDigit : ∀ c ∈ text.takeWhile isHexDigit, IsHexDigit c :=
  fun _ hc => isHexDigit_iff.mp (List.mem_takeWhile_imp hc)

theorem head_dropWhile_isHexDigit : ∀ c ∈ (text.dropWhile isHexDigit).head?, ¬IsHexDigit c := by
  intro c hc
  have h := List.head?_dropWhile_not isHexDigit text
  rw [Option.mem_def.mp hc] at h
  rw [← isHexDigit_iff]
  simpa using h

/-- Whether the text is accepted or not, only the digits after the point matter. -/
theorem stepsFit_iff (text : List Char) :
    StepsFit {} text ↔ 4 * (fractionDigits text).length ≤ 2 ^ 31 := by
  have hr := @head_dropWhile_isHexDigit text
  rw [fractionDigits]
  conv_lhs => rw [← List.takeWhile_append_dropWhile (p := isHexDigit) (l := text)]
  rw [stepsFit_whole rfl mem_takeWhile_isHexDigit, foldlM_push_digits _ mem_takeWhile_isHexDigit]
  simp only [Option.some.injEq, forall_eq', Bool.false_eq_true, if_false]
  generalize text.dropWhile isHexDigit = rest at hr
  split
  · next rest =>
    rw [stepsFit_point rfl]
    conv_lhs => rw [← List.takeWhile_append_dropWhile (p := isHexDigit) (l := rest)]
    rw [@stepsFit_fraction _ _ _ 0 rfl rfl mem_takeWhile_isHexDigit head_dropWhile_isHexDigit,
      Nat.zero_add]
  · next hp =>
    refine iff_of_true (stepsFit_refused fun c hc => push_eq_none (hr c hc) ?_) (by decide)
    rintro rfl
    obtain ⟨rest, rfl⟩ := List.head?_eq_some_iff.mp hc
    exact absurd rfl (hp rest)

theorem fractionDigits_pointed (h : Pointed IsHexDigit text whole fraction) :
    fractionDigits text = fraction := by
  cases h with
  | whole h =>
    rw [fractionDigits, List.dropWhile_eq_nil_iff.mpr fun c hc => isHexDigit_iff.mpr (h c hc)]
  | point h =>
    obtain ⟨hw, hf⟩ := List.forall_mem_append.mp h
    have hp : ¬isHexDigit '.' = true := mt isHexDigit_iff.mp not_isHexDigit_point
    rw [fractionDigits, List.dropWhile_append_of_pos fun c hc => isHexDigit_iff.mpr (hw c hc),
      List.dropWhile_cons_of_neg hp]
    exact List.takeWhile_eq_self_iff.mpr fun c hc => isHexDigit_iff.mpr (hf c hc)

theorem scaleFits_refused (hf : hexFloat? text = none) :
    ScaleFits text ↔ 4 * (fractionDigits (text.takeWhile (!isHexMark ·))).length ≤ 2 ^ 31 := by
  refine ⟨fun h => (stepsFit_iff _).mp h.steps, fun h => ⟨(stepsFit_iff _).mpr h, ?_⟩⟩
  intro m i hm hs hi
  rw [hexFloat?, hm, hi] at hf
  dsimp only at hf
  rw [if_pos hs] at hf
  cases hf

theorem scaleFits_iff (h : FloatText IsHexDigit isHexMark text whole fraction e) (he : InRange e) :
    ScaleFits text ↔ 4 * fraction.length ≤ 2 ^ 31 ∧ -2 ^ 31 ≤ e - 4 * fraction.length := by
  obtain ⟨hp, hn, hx⟩ := hexFloat_iff.mp h
  obtain ⟨seenPoint, hm⟩ := foldlM_push_pointed hp
  have hi := hexExponent?_eq_some_iff.mpr ⟨e, hx, he, rfl⟩
  obtain ⟨hl, hu⟩ := inRange_iff.mp he
  have hs (hk : 4 * fraction.length ≤ 2 ^ 31) :
      (Int32.ofInt e).toInt + (Int32.ofInt (-4 * fraction.length)).toInt = e - 4 * fraction.length := by
    rw [toInt_ofInt he, toInt_ofInt (inRange_iff.mpr (by omega))]
    omega
  constructor
  · rintro ⟨ht, hsum⟩
    have hk : 4 * fraction.length ≤ 2 ^ 31 := by
      rwa [stepsFit_iff, fractionDigits_pointed hp] at ht
    have hr := hsum _ _ hm (by simpa using hn) hi
    rw [hs hk] at hr
    exact ⟨hk, (inRange_iff.mp hr).1⟩
  · rintro ⟨hk, hr⟩
    refine ⟨by rwa [stepsFit_iff, fractionDigits_pointed hp], fun m i hm' _ hi' => ?_⟩
    cases hm.symm.trans hm'
    cases hi.symm.trans hi'
    rw [hs hk]
    exact inRange_iff.mpr ⟨hr, by omega⟩

def hexFloatText? (s : Bytes) : Option (Bool × List Char) :=
  (Utf8.decode? s).bind fun text =>
    let (negative, body) := splitSign (trim isWhiteSpace text)
    if isHexPrefixed body && (body.drop 2).any fun c => c = '.' || isHexMark c then
      some (negative, body.drop 2)
    else none

theorem read_hexFloat (h : hexFloatText? s = some (negative, text)) :
    read s = (hexFloat? text).map fun x => .float (if negative then x.neg else x) := by
  obtain ⟨decoded, hd, h⟩ := Option.bind_eq_some_iff.mp h
  rw [read, hd]
  dsimp only at h ⊢
  split at h
  · next hx =>
    cases h
    obtain ⟨hp, ha⟩ := Bool.and_eq_true_iff.mp hx
    have hn : ¬List.isEmpty ((splitSign (trim isWhiteSpace decoded)).2.drop 2) = true := by
      intro hn
      rw [List.isEmpty_iff.mp hn] at ha
      cases ha
    rw [if_pos hp, readHex, if_neg hn, if_pos ha]
  · cases h

/-- What 32 bits make of the exponent of a hexadecimal float. -/
structure ScalesFloat (s : Bytes) (negative : Bool) (text : List Char) : Prop where
  read : read s = (hexFloat? text).map fun x => .float (if negative then x.neg else x)
  refused : hexFloat? text = none →
    (ScaleFits text ↔ 4 * (fractionDigits (text.takeWhile (!isHexMark ·))).length ≤ 2 ^ 31)
  accepted : ∀ x, hexFloat? text = some x →
    ∃ whole fraction e, FloatText IsHexDigit isHexMark text whole fraction e ∧ InRange e ∧
      x = (hexValue (whole ++ fraction)).mul (Double.twoPow ((e - 4 * fraction.length).bmod (2 ^ 32)))
  /-- There are two ways to leave the 32 bits: too many digits, or a sum that is too small. -/
  fits : ∀ whole fraction e, FloatText IsHexDigit isHexMark text whole fraction e → InRange e →
    (ScaleFits text ↔ 4 * fraction.length ≤ 2 ^ 31 ∧ -2 ^ 31 ≤ e - 4 * fraction.length)
  exact : ∀ whole fraction e, FloatText IsHexDigit isHexMark text whole fraction e → InRange e →
    ScaleFits text →
    hexFloat? text = some ((hexValue (whole ++ fraction)).mul (Double.twoPow (e - 4 * fraction.length)))
  wraps : ∀ whole fraction e, FloatText IsHexDigit isHexMark text whole fraction e → InRange e →
    4 * fraction.length ≤ 2 ^ 31 → e - 4 * fraction.length < -2 ^ 31 →
    0 ≤ e - 4 * fraction.length + 2 ^ 32 ∧ hexFloat? text =
      some ((hexValue (whole ++ fraction)).mul (Double.twoPow (e - 4 * fraction.length + 2 ^ 32)))

theorem toInt_exponent (e : Int) (k : Nat) :
    (Int32.ofInt e + Int32.ofInt (-4 * k)).toInt = (e - 4 * k).bmod (2 ^ 32) := by
  rw [← Int32.ofInt_add, Int32.toInt_ofInt, neg_mul, ← sub_eq_add_neg]
  rfl

theorem hexFloat?_eq (h : FloatText IsHexDigit isHexMark text whole fraction e) (he : InRange e) :
    hexFloat? text = some ((hexValue (whole ++ fraction)).mul
      (Double.twoPow ((e - 4 * fraction.length).bmod (2 ^ 32)))) := by
  rw [← toInt_exponent]
  exact hexFloat?_eq_some_iff.mpr ⟨whole, fraction, e, h, he, rfl⟩

theorem floatText_tiny {digits : List Char} (hc : IsHexDigit c) (hd : Digits digits) :
    FloatText IsHexDigit isHexMark ('.' :: c :: 'p' :: '-' :: digits) [] [c] (-decimalValue digits) := by
  have hm : Pointed IsHexDigit ['.', c] [] [c] :=
    @Pointed.point _ [] [c] (List.forall_mem_singleton.mpr hc)
  have hx : Exponent isHexMark ('p' :: (Sign.minus.chars ++ digits)) _ := .given .minus rfl hd
  exact .intro hm (List.cons_ne_nil _ _) hx

theorem scalesFloat {s : Bytes} {negative : Bool} {text : List Char}
    (h : hexFloatText? s = some (negative, text)) : ScalesFloat s negative text where
  read := read_hexFloat h
  refused := scaleFits_refused
  accepted x hx := by
    obtain ⟨whole, fraction, e, ht, he, rfl⟩ := hexFloat?_eq_some_iff.mp hx
    exact ⟨whole, fraction, e, ht, he, by rw [toInt_exponent]⟩
  fits _ _ _ := scaleFits_iff
  exact _ _ _ ht he hs := by
    obtain ⟨hl, hr⟩ := (scaleFits_iff ht he).mp hs
    obtain ⟨-, hu⟩ := inRange_iff.mp he
    rw [hexFloat?_eq ht he, Int.bmod_eq_of_le (by omega) (by omega)]
  wraps _ fraction e ht he hl hr := by
    obtain ⟨hb, -⟩ := inRange_iff.mp he
    have hw : (e - 4 * fraction.length).bmod (2 ^ 32) = e - 4 * fraction.length + 2 ^ 32 := by
      rw [← Int.add_bmod_right]
      exact Int.bmod_eq_of_le (by omega) (by omega)
    rw [hexFloat?_eq ht he, hw]
    exact ⟨by omega, rfl⟩

/-- The smallest exponent there is. -/
theorem scalesFloat_smallest :
    ScalesFloat (Bytes.ofString "0x.8p-2147483644") false ".8p-2147483644".toList ∧
    ScaleFits ".8p-2147483644".toList ∧
    read (Bytes.ofString "0x.8p-2147483644") = some (.float (.zero false)) := by
  have h : ScalesFloat (Bytes.ofString "0x.8p-2147483644") false ".8p-2147483644".toList :=
    scalesFloat (by decide)
  have ht := @floatText_tiny '8' "2147483644".toList ⟨8, rfl⟩ ⟨by decide, List.all_eq_true.mp (by decide)⟩
  exact ⟨h, (h.fits _ _ _ ht (by decide)).mpr (by decide +kernel), by decide +kernel⟩

/-- A smaller exponent comes round as a large one. -/
theorem scaleFits_overflows :
    hexFloatText? (Bytes.ofString "0x.1p-2147483648") = some (false, ".1p-2147483648".toList) ∧
    ¬ScaleFits ".1p-2147483648".toList ∧
    read (Bytes.ofString "0x.1p-2147483648") = some (.float (.infinity false)) := by
  have ht := @floatText_tiny '1' "2147483648".toList ⟨1, rfl⟩ ⟨by decide, List.all_eq_true.mp (by decide)⟩
  have hn : ¬ScaleFits ".1p-2147483648".toList := fun h =>
    absurd ((scaleFits_iff ht (by decide)).mp h) (by decide +kernel)
  exact ⟨by decide, hn, by decide +kernel⟩

end Numeral
end LuaMachine
