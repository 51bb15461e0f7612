import LuaMachine.Exec.Heap
import LuaMachine.Proofs.Table.Invariant

namespace LuaMachine

def Value.isNaN : Value → Bool
  | .number (.float x) => x.isNaN
  | _ => false

namespace Key

theorem ofValue?_eq_none_iff (v : Value) : ofValue? v = none ↔ v = .nil ∨ v.isNaN = true := by
  cases v with
  | number n =>
    cases n with
    | int i => simp [ofValue?, ofNumber?_int, Value.isNaN]
    | float x =>
      change ofNumber? (.float x) = none ↔ _ ∨ x.isNaN = true
      rw [or_iff_right (by simp)]
      cases hx : x.toInt64? with
      | some i =>
        have hn : ¬x.isNaN = true := fun hn => by
          rw [Double.toInt64?_of_isNaN hn] at hx
          cases hx
        simp [ofNumber?_integral hx, hn]
      | none => simp [ofNumber?_fractional hx]
  | _ => simp [ofValue?, Value.isNaN]

end Key

namespace Table

/-- The tables that come about by assignments and steps of traversals. -/
inductive Reachable : Table → Prop where
  | new : Reachable {}
  | put {t t' : Table} {k v : Value} : Reachable t → t.put k v = .ok t' → Reachable t'
  | putInt {t : Table} (i : Int64) (v : Value) : Reachable t → Reachable (t.putInt i v)
  | next {t : Table} (k : Value) : Reachable t → Reachable (t.next k).1

variable {t : Table}

theorem put_of_some {k : Value} {j : Key} (h : Key.ofValue? k = some j) (v : Value) :
    t.put k v = .ok (t.putKey j v) := by
  rw [put, h]

theorem put_of_none {k : Value} (h : Key.ofValue? k = none) (v : Value) :
    t.put k v = .error (if k.isNil then .nil else .nan) := by
  rw [put, h]

theorem put_eq_ok_iff {k v : Value} {t' : Table} :
    t.put k v = .ok t' ↔ ∃ j, Key.ofValue? k = some j ∧ t' = t.putKey j v := by
  cases hk : Key.ofValue? k with
  | none => simp [put_of_none hk]
  | some j => simp [put_of_some hk, eq_comm]

theorem Reachable.wellFormed (ht : t.Reachable) : t.WellFormed := by
  induction ht with
  | new => exact wellFormed_empty
  | put _ hp ih =>
    obtain ⟨j, hj, rfl⟩ := put_eq_ok_iff.mp hp
    exact wellFormed_putKey ih (Key.isNormal_of_ofValue? hj) _
  | putInt i v _ ih => exact wellFormed_putKey ih (Key.isNormal_int i) v
  | next k _ ih => exact ih.congr (next_eq _ k)

theorem WellFormed.get_put (h : t.WellFormed) {k v : Value} {t' : Table} (hp : t.put k v = .ok t')
    (l : Value) : t'.get l = if k.rawEq l then v else t.get l := by
  obtain ⟨j, hj, rfl⟩ := put_eq_ok_iff.mp hp
  have hr := Key.rawEq_iff hj (b := l)
  cases hl : Key.ofValue? l with
  | none =>
    rw [hl] at hr
    simp [get, hl, hr]
  | some i =>
    rw [hl, Option.some.injEq] at hr
    simp only [get, hl, getKey_putKey h, hr, eq_comm (a := j)]

/-- A table is a finite map: it takes every key but nil and NaN, an assignment changes what is read
under the keys that are raw-equal to the one given and under no others, and one that is refused
changes nothing in the machine. Integers and strings are read as any other key. -/
theorem Reachable.finite_map (ht : t.Reachable) :
    (∀ k v, (∃ t', t.put k v = .ok t') ↔ k ≠ .nil ∧ k.isNaN = false) ∧
    (∀ k v t', t.put k v = .ok t' → ∀ l, t'.get l = if k.rawEq l then v else t.get l) ∧
    (∀ k v, (∀ t', t.put k v ≠ .ok t') → ∀ (m : Machine) (id : TableId), m.table id = t →
      ∃ e, Exec.putRaw id k v m = .raised e m) ∧
    (∀ i, t.getInt i = t.get (.int i)) ∧ ∀ s, t.getString s = t.get (.string s) := by
  refine ⟨fun k v => ?_, fun k v t' hp l => ht.wellFormed.get_put hp l,
    fun k v hp m id _ => ?_, fun i => rfl, fun s => rfl⟩
  · have hk := Key.ofValue?_eq_none_iff k
    cases hj : Key.ofValue? k with
    | none =>
      rw [hj] at hk
      simp only [put_of_none hj, reduceCtorEq, exists_false, false_iff, not_and, Bool.not_eq_false]
      exact fun hn => (hk.mp rfl).resolve_left hn
    | some j =>
      rw [hj] at hk
      have hk := not_or.mp (mt hk.mpr nofun)
      exact ⟨fun _ => ⟨hk.1, Bool.eq_false_iff.mpr hk.2⟩, fun _ => ⟨_, put_of_some hj v⟩⟩
  · cases hj : Key.ofValue? k with
    | none => exact ⟨.fault (.badKey (if k.isNil then .nil else .nan)) m.location, by
        rw [Exec.putRaw, hj]
        rfl⟩
    | some j => exact absurd (put_of_some hj v) (hp _)

/-- A float key names the same place as the integer, also one that continues the sequence and pulls
the entry after it in. -/
theorem finite_map_float_key : ∃ t', (({} : Table).putInt 2 (.bool true)).put
      (.float (Double.ofInt 1)) (.bool false) = .ok t' ∧
    t'.get (.int 1) = .bool false ∧ t'.get (.int 2) = .bool true ∧ t'.length = 2 := by
  have ht : (({} : Table).putInt 2 (.bool true)).Reachable := .putInt 2 _ .new
  obtain ⟨hok, hget, -⟩ := ht.finite_map
  obtain ⟨t', hp⟩ := (hok (.float (Double.ofInt 1)) (.bool false)).mpr ⟨by decide, by decide⟩
  have h1 := hget _ _ t' hp (.int 1)
  have h2 := hget _ _ t' hp (.int 2)
  refine ⟨t', hp, ?_, ?_, ?_⟩
  · rw [h1, if_pos (by decide)]
  · rw [h2, if_neg (by decide)]
    decide
  · have hd : (({} : Table).putInt 2 (.bool true)).put (.float (Double.ofInt 1)) (.bool false) =
      .ok { items := #[.bool false, .bool true], changed := true } := by decide +kernel
    rw [hd] at hp
    rw [← Except.ok.inj hp]
    rfl

theorem WellFormed.getInt_of_mem (h : t.WellFormed) {i : Int64} {v : Value}
    (hm : (.int i, v) ∈ t.entries) : t.getInt i = v := by
  have hf := Entries.find?_of_mem h.distinct hm
  rw [getInt, getKey_eq_lookup, lookup_of_find? h.toOrderly hf]

theorem WellFormed.getInt_last (h : t.WellFormed) {i : Int64} (hi : i.toInt = t.length)
    (hn : t.length ≠ 0) : t.getInt i ≠ .nil := by
  have hs : 0 < t.items.size := Nat.pos_of_ne_zero hn
  have hl := h.last
  have hi : i.toInt = t.items.size := hi
  rw [Array.back?_eq_getElem?, Array.getElem?_eq_getElem (by omega)] at hl
  rw [getInt, getKey_eq_lookup, lookup_int, if_pos (by omega), Array.getD_eq_getD_getElem?,
    show i.toInt.toNat - 1 = t.items.size - 1 by omega, Array.getElem?_eq_getElem (by omega)]
  exact fun he => hl (congrArg some he)

theorem WellFormed.getInt_next (h : t.WellFormed) {i : Int64} (hi : i.toInt = t.length + 1) :
    t.getInt i = .nil := by
  have hi : i.toInt = t.items.size + 1 := hi
  rw [getInt, getKey_eq_lookup, lookup_int, if_neg (by omega), h.find?_next hi]
  rfl

/-- The length of a table is a border, and it counts the positive integer keys as soon as these are
the numbers from 1 to some number; all of them are in the sequence then. -/
theorem Reachable.length_border (ht : t.Reachable) :
    t.items.back? ≠ some .nil ∧
    (∀ k v, (k, v) ∈ t.entries → v ≠ .nil ∧ k.toValue ≠ .nil ∧ k.toValue.isNaN = false ∧
      (∀ x, k = .float x → x.toInt64? = none) ∧
      ∀ i, k = .int i → ¬(1 ≤ i.toInt ∧ i.toInt ≤ t.length + 1)) ∧
    (t.length = 0 ∨ ∃ i : Int64, i.toInt = t.length ∧ t.getInt i ≠ .nil) ∧
    (∀ i : Int64, i.toInt = t.length + 1 → t.getInt i = .nil) ∧
    ∀ n : Nat, (∀ z : Int, 1 ≤ z ∧ z ≤ n ↔ ∃ i : Int64, i.toInt = z ∧ 1 ≤ z ∧ t.getInt i ≠ .nil) →
      t.length = n ∧ ∀ i v, (.int i, v) ∈ t.entries → i.toInt ≤ 0 := by
  have h := ht.wellFormed
  have hlast : t.length ≠ 0 → ∃ i : Int64, i.toInt = t.length ∧ t.getInt i ≠ .nil := fun hn => by
    have hf : (t.items.size : Int) ≤ greatestIndex := h.fits
    have hi : (Int64.ofNat t.length).toInt = t.length := toInt_ofNat (Int.ofNat_le.mp hf)
    exact ⟨_, hi, h.getInt_last hi hn⟩
  refine ⟨h.last, fun k v hm => ?_, ?_, fun i hi => h.getInt_next hi, fun n hn => ?_⟩
  · have hk := h.normal k v hm
    have hk' := not_or.mp (mt (Key.ofValue?_eq_none_iff k.toValue).mpr (by rw [hk]; nofun))
    refine ⟨h.filled k v hm, hk'.1, Bool.eq_false_iff.mpr hk'.2, ?_, ?_⟩
    · rintro x rfl
      exact (Key.ofNumber?_float_eq_float.mp hk).2.1
    · rintro i rfl
      have ho := h.outside i v hm
      have hx := h.next i v hm
      unfold length
      omega
  · by_cases hn : t.length = 0
    · exact .inl hn
    · exact .inr (hlast hn)
  · have hlen : t.length = n := by
      rcases Nat.lt_trichotomy t.length n with hl | he | hl
      · obtain ⟨i, hi, -, hv⟩ := (hn (t.length + 1)).mp (by omega)
        exact absurd (h.getInt_next hi) hv
      · exact he
      · obtain ⟨i, hi, hv⟩ := hlast (by omega)
        have := (hn t.length).mpr ⟨i, hi, by omega, hv⟩
        omega
    refine ⟨hlen, fun i v hm => Int.not_lt.mp fun hp => ?_⟩
    have hv : t.getInt i ≠ .nil := h.getInt_of_mem hm ▸ h.filled _ v hm
    have hu := (hn i.toInt).mpr ⟨i, rfl, hp, hv⟩
    rw [← hlen] at hu
    exact h.outside i v hm hu

/-- Keys that come in the wrong order, with one too many that is cleared again. -/
theorem length_border_shuffled :
    let t := ((((({} : Table).putInt 3 (.bool true)).putInt 1 (.bool true)).putInt 4
      (.bool true)).putInt 2 (.bool true)).putInt 4 .nil
    t.length = 3 ∧ ∀ i v, (.int i, v) ∈ t.entries → i.toInt ≤ 0 := by
  intro t
  have ht : t.Reachable := .putInt 4 _ (.putInt 2 _ (.putInt 4 _ (.putInt 1 _ (.putInt 3 _ .new))))
  have hs : t = { items := #[.bool true, .bool true, .bool true], changed := true } := by decide +kernel
  refine ht.length_border.2.2.2.2 3 fun z => ⟨fun hz => ?_, fun ⟨i, hi, hp, hv⟩ => ⟨hp, ?_⟩⟩
  · obtain rfl | rfl | rfl : z = 1 ∨ z = 2 ∨ z = 3 := by omega
    · exact ⟨1, by decide, by decide, by rw [hs]; decide⟩
    · exact ⟨2, by decide, by decide, by rw [hs]; decide⟩
    · exact ⟨3, by decide, by decide, by rw [hs]; decide⟩
  · refine Int.not_lt.mp fun hu => hv ?_
    rw [hs, getInt, getKey_eq_lookup, lookup_int]
    exact if_neg fun hc => Int.not_le.mpr hu (hi ▸ hc.2)

end Table
end LuaMachine
