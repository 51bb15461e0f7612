import LuaMachine.Value.Hash
import LuaMachine.Proofs.Table.History

namespace LuaMachine

namespace Key

/-- A key as it is kept, where no key stands for nil. -/
def kept : Option Key → Value
  | none => .nil
  | some k => k.toValue

theorem toValue_injective : Function.Injective toValue := by
  intro k l h
  cases k <;> cases l <;> simp_all [toValue, Value.int, Value.float]

theorem toValue_ne_nil (k : Key) : k.toValue ≠ .nil := by
  cases k <;> simp [toValue, Value.int, Value.float]

theorem kept_injective : Function.Injective kept
  | none, none, _ => rfl
  | none, some k, h => absurd h.symm k.toValue_ne_nil
  | some k, none, h => absurd h k.toValue_ne_nil
  | some _, some _, h => congrArg some (toValue_injective h)

end Key

namespace Value

open Key

variable {a b c v : Value}

theorem normalized_of_toInt64? {x : Double} {i : Int64} (h : x.toInt64? = some i) :
    normalized (float x) = int i := by
  simp only [normalized, float, h]

theorem normalized_of_fractional {x : Double} (h : x.toInt64? = none) :
    normalized (float x) = float x := by
  simp only [normalized, float, h]

theorem kept_ofValue? (hv : v.isNaN = false) : kept (ofValue? v) = v.normalized := by
  cases v with
  | number n =>
    cases n with
    | int i => rfl
    | float x =>
      change kept (ofNumber? (.float x)) = normalized (float x)
      cases hx : x.toInt64? with
      | some i => rw [ofNumber?_integral hx, normalized_of_toInt64? hx, kept, toValue]
      | none =>
        have hn : ¬x.isNaN = true := by simpa [isNaN] using hv
        rw [ofNumber?_fractional hx, normalized_of_fractional hx, if_neg hn, kept, toValue]
  | _ => rfl

theorem rawEq_iff_ofValue? (ha : a.isNaN = false) : a.rawEq b = true ↔
    b.isNaN = false ∧ ofValue? a = ofValue? b := by
  cases hk : ofValue? a with
  | some k =>
    rw [Key.rawEq_iff hk, eq_comm]
    refine ⟨fun h => ⟨?_, h⟩, And.right⟩
    have hb := mt (ofValue?_eq_none_iff b).mpr (by rw [← h]; nofun)
    simpa using (not_or.mp hb).2
  | none =>
    have ha : a = .nil := ((ofValue?_eq_none_iff a).mp hk).resolve_right (by simp [ha])
    rw [ha, eq_comm (a := none), ofValue?_eq_none_iff]
    cases b <;> simp [rawEq, isNaN]

theorem rawEq_iff_normalized (ha : a.isNaN = false) (hb : b.isNaN = false) :
    a.rawEq b = true ↔ a.normalized = b.normalized := by
  rw [rawEq_iff_ofValue? ha, and_iff_right hb, ← kept_ofValue? ha, ← kept_ofValue? hb,
    kept_injective.eq_iff]

theorem hashWrites_normalized (v : Value) : v.normalized.hashWrites = v.hashWrites := by
  cases v with
  | number n =>
    cases n with
    | int i => rfl
    | float x =>
      change (normalized (float x)).hashWrites = (float x).hashWrites
      cases hx : x.toInt64? with
      | some i =>
        rw [normalized_of_toInt64? hx]
        simp only [hashWrites, int, float, hx]
      | none => rw [normalized_of_fractional hx]
  | _ => rfl

abbrev Ordinary := { v : Value // v.isNaN = false }

theorem rawEq_iff_kept (a b : Ordinary) : a.1.rawEq b.1 = true ↔ a.1.normalized = b.1.normalized :=
  rawEq_iff_normalized a.2 b.2

/-- On values other than NaN, raw equality is an equivalence, equal values are hashed alike, and they
are those that are kept as the same key. -/
theorem rawEq_lawful :
    Equivalence (fun a b : Ordinary => a.1.rawEq b.1 = true) ∧
    (∀ a b : Ordinary, a.1.rawEq b.1 = true → a.1.hashWrites = b.1.hashWrites) ∧
    (∀ a b : Ordinary, a.1.normalized = b.1.normalized ↔ a.1.rawEq b.1 = true) ∧
    ∀ a b : Ordinary, Key.ofValue? a.1 = Key.ofValue? b.1 ↔ a.1.rawEq b.1 = true := by
  refine ⟨⟨fun a => ?_, fun {a b} h => ?_, fun {a b c} h h' => ?_⟩, fun a b h => ?_,
    fun a b => (rawEq_iff_kept a b).symm, fun a b => ?_⟩
  · rw [rawEq_iff_kept]
  · rw [rawEq_iff_kept] at h ⊢
    exact h.symm
  · rw [rawEq_iff_kept] at h h' ⊢
    exact h.trans h'
  · rw [rawEq_iff_kept] at h
    rw [← hashWrites_normalized, h, hashWrites_normalized]
  · rw [rawEq_iff_ofValue? a.2, and_iff_right b.2]

/-- The least integer and the float that equals it are one key, and so are the two zeros. -/
theorem rawEq_lawful_extremes :
    (int Int64.minValue).hashWrites = (float ⟨0xC3E0000000000000⟩).hashWrites ∧
    (float (.zero true)).rawEq (float (.zero false)) = true ∧
    (int Int64.minValue).normalized = (float ⟨0xC3E0000000000000⟩).normalized := by
  let least : Ordinary := ⟨int Int64.minValue, rfl⟩
  let asFloat : Ordinary := ⟨float ⟨0xC3E0000000000000⟩, by decide⟩
  let negative : Ordinary := ⟨float (.zero true), by decide⟩
  let zero : Ordinary := ⟨int 0, rfl⟩
  let positive : Ordinary := ⟨float (.zero false), by decide⟩
  have h : least.1.rawEq asFloat.1 = true := by decide
  have h₁ : negative.1.rawEq zero.1 = true := by decide
  have h₂ : zero.1.rawEq positive.1 = true := by decide
  obtain ⟨equivalence, hash, normal, -⟩ := rawEq_lawful
  exact ⟨hash least asFloat h, equivalence.trans (y := zero) h₁ h₂, (normal least asFloat).mpr h⟩

end Value
end LuaMachine
