import LuaMachine.Value.Key
import LuaMachine.Proofs.Double

namespace LuaMachine

open Double

namespace Key

theorem ofNumber?_int (i : Int64) : ofNumber? (.int i) = some (int i) := rfl

theorem ofNumber?_integral {x : Double} {i : Int64} (h : x.toInt64? = some i) :
    ofNumber? (.float x) = some (int i) := by
  simp [ofNumber?, Number.toInt64?, h]

theorem ofNumber?_fractional {x : Double} (h : x.toInt64? = none) :
    ofNumber? (.float x) = if x.isNaN then none else some (float x) := by
  rw [ofNumber?, Number.toInt64?, h]
  rfl

theorem numeric_of_ofNumber? {n : Number} {k : Key} (h : ofNumber? n = some k) :
    (∃ i, k = int i) ∨ ∃ x, k = float x := by
  unfold ofNumber? at h
  split at h
  · exact .inl ⟨_, (Option.some.inj h).symm⟩
  · split at h
    · cases h
    · exact .inr ⟨_, (Option.some.inj h).symm⟩

theorem ofNumber?_float_eq_int {x : Double} {i : Int64} :
    ofNumber? (.float x) = some (int i) ↔ x.toInt64? = some i := by
  cases hx : x.toInt64? with
  | some j => simp [ofNumber?_integral hx]
  | none =>
    rw [ofNumber?_fractional hx]
    split <;> simp

theorem ofNumber?_float_eq_float {x y : Double} :
    ofNumber? (.float y) = some (float x) ↔ y = x ∧ x.toInt64? = none ∧ x.isNaN = false := by
  cases hy : y.toInt64? with
  | some j =>
    rw [ofNumber?_integral hy]
    refine ⟨fun h => by simp at h, fun ⟨h, hx, _⟩ => ?_⟩
    rw [h, hx] at hy
    cases hy
  | none =>
    rw [ofNumber?_fractional hy]
    cases hn : y.isNaN with
    | true =>
      refine ⟨fun h => by simp at h, fun ⟨h, _, hx⟩ => ?_⟩
      rw [h, hx] at hn
      cases hn
    | false =>
      refine ⟨fun h => ?_, fun ⟨h, _⟩ => by simp [h]⟩
      obtain rfl : y = x := by simpa using h
      exact ⟨rfl, hy, hn⟩

theorem eq_iff_ofNumber? {a b : Number} {k : Key} (ha : ofNumber? a = some k) :
    a.eq b = true ↔ ofNumber? b = some k := by
  cases a with
  | int i =>
    obtain rfl := Option.some.inj ha
    cases b with
    | int j => simp [Number.eq, ofNumber?_int, eq_comm (a := i)]
    | float y => rw [ofNumber?_float_eq_int, Number.eq, beq_iff_eq]
  | float x =>
    cases k with
    | int i =>
      have hx := ofNumber?_float_eq_int.mp ha
      cases b with
      | int j => simp [Number.eq, ofNumber?_int, hx, eq_comm (a := i)]
      | float y =>
        rw [ofNumber?_float_eq_int, Number.eq, Double.eq]
        simp only [Bool.and_eq_true, Bool.not_eq_true', beq_iff_eq]
        refine ⟨fun h => (toInt64?_eq_of_rank h.2).symm.trans hx, fun hy => ?_⟩
        have hr := rank_eq_of_toInt64? hx hy
        have hn : x.isNaN = false := by
          rw [← Bool.not_eq_true]
          intro hn
          rw [toInt64?_of_isNaN hn] at hx
          cases hx
        exact ⟨⟨hn, (isNaN_eq_of_rank hr).symm.trans hn⟩, hr⟩
    | float z =>
      obtain ⟨rfl, hx, hn⟩ := ofNumber?_float_eq_float.mp ha
      cases b with
      | int j => simp [Number.eq, ofNumber?_int, hx]
      | float y =>
        rw [ofNumber?_float_eq_float, Number.eq, Double.eq]
        simp only [Bool.and_eq_true, Bool.not_eq_true', beq_iff_eq]
        refine ⟨fun h => ⟨?_, hx, hn⟩, fun h => ?_⟩
        · obtain ⟨hm, hz | hs⟩ := rank_eq_iff.mp h.2
          · exact absurd hx (toInt64?_of_isZero hz)
          · exact (eq_of_magnitude hm hs).symm
        · rw [h.1]
          exact ⟨⟨hn, hn⟩, rfl⟩
    | _ => rcases numeric_of_ofNumber? ha with ⟨_, h⟩ | ⟨_, h⟩ <;> cases h

theorem rawEq_iff {a b : Value} {k : Key} (ha : ofValue? a = some k) :
    a.rawEq b = true ↔ ofValue? b = some k := by
  have hn : ∀ {n : Number}, ofNumber? n = some k → (∃ i, k = int i) ∨ ∃ x, k = float x :=
    numeric_of_ofNumber?
  cases a with
  | nil => cases ha
  | number m =>
    cases b with
    | number n => exact eq_iff_ofNumber? ha
    | _ => rcases hn ha with ⟨i, rfl⟩ | ⟨x, rfl⟩ <;> simp [Value.rawEq, ofValue?]
  | bool p | string s | table t | function f | thread t =>
    obtain rfl := Option.some.inj ha
    cases b with
    | number n =>
      refine ⟨nofun, fun h => ?_⟩
      rcases hn h with ⟨_, h⟩ | ⟨_, h⟩ <;> cases h
    | _ => constructor <;> simp_all [Value.rawEq, ofValue?]

end Key
end LuaMachine
