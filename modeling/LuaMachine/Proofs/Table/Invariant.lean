import LuaMachine.Proofs.Key
import LuaMachine.Proofs.Table.Entries

namespace LuaMachine

namespace Key

def IsNormal (k : Key) : Prop := ofValue? k.toValue = some k

theorem isNormal_int (i : Int64) : (int i).IsNormal := rfl

theorem isNormal_of_ofValue? {v : Value} {k : Key} (h : ofValue? v = some k) : k.IsNormal := by
  cases v with
  | number n =>
    rcases numeric_of_ofNumber? h with ⟨i, rfl⟩ | ⟨x, rfl⟩
    · exact isNormal_int i
    · cases n with
      | int i => cases h
      | float y => exact ofNumber?_float_eq_float.mpr ⟨rfl, (ofNumber?_float_eq_float.mp h).2⟩
  | nil => cases h
  | _ =>
    obtain rfl := Option.some.inj h
    rfl

end Key

namespace Table

/-- What holds of a sequence and entries even while entries are being moved. -/
structure Orderly (items : Array Value) (entries : Entries) : Prop where
  last : items.back? ≠ some .nil
  fits : (items.size : Int) ≤ Int64.maxValue.toInt
  distinct : entries.keys.Nodup
  filled : ∀ k v, (k, v) ∈ entries → v ≠ .nil
  normal : ∀ k v, (k, v) ∈ entries → k.IsNormal
  outside : ∀ i v, (Key.int i, v) ∈ entries → ¬(1 ≤ i.toInt ∧ i.toInt ≤ items.size)

structure WellFormed (t : Table) : Prop extends Orderly t.items t.entries where
  next : ∀ i v, (Key.int i, v) ∈ t.entries → i.toInt ≠ t.items.size + 1

variable {t : Table} {items : Array Value} {entries : Entries}

theorem wellFormed_empty : ({} : Table).WellFormed where
  last := by simp
  fits := by decide
  distinct := List.nodup_nil
  filled := nofun
  normal := nofun
  outside := nofun
  next := nofun

def lookup (items : Array Value) (entries : Entries) (k : Key) : Value :=
  ({ items, entries } : Table).getKey k

theorem getKey_eq_lookup (t : Table) (k : Key) : t.getKey k = lookup t.items t.entries k := by
  cases k <;> rfl

theorem lookup_int (i : Int64) : lookup items entries (.int i) =
    if 1 ≤ i.toInt ∧ i.toInt ≤ items.size then items.getD (i.toInt.toNat - 1) .nil
    else (entries.find? (.int i)).getD .nil := rfl

theorem lookup_other {k : Key} (h : ∀ i, k ≠ .int i) :
    lookup items entries k = (entries.find? k).getD .nil := by
  cases k with
  | int i => exact absurd rfl (h i)
  | _ => rfl

theorem Orderly.find?_of_inside (h : Orderly items entries) {i : Int64}
    (hi : 1 ≤ i.toInt ∧ i.toInt ≤ items.size) : entries.find? (.int i) = none := by
  cases hf : entries.find? (.int i) with
  | none => rfl
  | some v => exact absurd hi (h.outside i v (Entries.mem_of_find? hf))

theorem Orderly.erase (h : Orderly items entries) (k : Key) : Orderly items (entries.erase k) where
  last := h.last
  fits := h.fits
  distinct := h.distinct.sublist (Entries.keys_erase_sublist k entries)
  filled l v hm := h.filled l v (Entries.mem_of_mem_erase hm)
  normal l v hm := h.normal l v (Entries.mem_of_mem_erase hm)
  outside i v hm := h.outside i v (Entries.mem_of_mem_erase hm)

section Trim

theorem trim_size_le (items : Array Value) : (trim items).size ≤ items.size := by
  unfold trim
  fun_induction Array.popWhile Value.isNil items with
  | case1 items h hp ih =>
    rw [Array.size_pop] at ih
    omega
  | case2 | case3 => exact Nat.le_refl _

theorem back?_trim (items : Array Value) : (trim items).back? ≠ some .nil := by
  unfold trim
  fun_induction Array.popWhile Value.isNil items with
  | case1 items h hp ih => exact ih
  | case2 items h hp =>
    rw [Array.back?_eq_getElem?, Array.getElem?_eq_getElem (by omega)]
    intro hn
    rw [Option.some.inj hn] at hp
    exact hp rfl
  | case3 items h =>
    obtain rfl : items = #[] := Array.eq_empty_of_size_eq_zero (by omega)
    simp

theorem getD_trim (items : Array Value) (i : Nat) : (trim items).getD i .nil = items.getD i .nil := by
  unfold trim
  fun_induction Array.popWhile Value.isNil items with
  | case1 items h hp ih =>
    rw [ih, Array.getD_eq_getD_getElem?, Array.getElem?_pop, Array.getD_eq_getD_getElem?]
    split
    · rfl
    · next hi =>
      by_cases he : i = items.size - 1
      · subst he
        rw [Array.getElem?_eq_getElem (by omega)]
        cases hv : items[items.size - 1] with
        | nil => rfl
        | _ => rw [hv] at hp; cases hp
      · rw [Array.getElem?_eq_none (by omega)]
  | case2 | case3 => rfl

end Trim

section Pull

theorem toInt_ofNat {n : Nat} (h : n ≤ greatestIndex) : (Int64.ofNat n).toInt = n :=
  Int64.toInt_ofNat_of_lt (Nat.lt_of_le_of_lt h (by decide))

theorem continuation?_eq_some {n : Nat} {k : Key} {v : Value}
    (h : continuation? n entries = some (k, v)) :
    ∃ i : Int64, k = .int i ∧ i.toInt = n + 1 ∧ entries.find? k = some v := by
  rw [continuation?, Option.ite_none_right_eq_some] at h
  obtain ⟨hn, h⟩ := h
  obtain ⟨w, hw, he⟩ := Option.map_eq_some_iff.mp h
  cases he
  exact ⟨_, rfl, toInt_ofNat hn, hw⟩

theorem continuation?_eq_none {n : Nat} (h : continuation? n entries = none) {i : Int64}
    (hi : i.toInt = n + 1) : entries.find? (.int i) = none := by
  have hn : n < greatestIndex := by
    have := i.toInt_lt
    unfold greatestIndex
    omega
  have hk : Int64.ofNat (n + 1) = i := Int64.toInt_inj.mp ((toInt_ofNat hn).trans hi.symm)
  rw [continuation?, if_pos hn] at h
  exact Option.map_eq_none_iff.mp (hk ▸ h)

theorem Orderly.push (h : Orderly items entries) {k : Key} {v : Value} {i : Int64}
    (hk : k = .int i) (hi : i.toInt = items.size + 1) (hv : v ≠ .nil) :
    Orderly (items.push v) (entries.erase k) where
  last := by simpa using hv
  fits := by
    have := i.toInt_le
    rw [Array.size_push]
    push_cast
    omega
  distinct := (h.erase k).distinct
  filled := (h.erase k).filled
  normal := (h.erase k).normal
  outside j w hm hj := by
    have ho := (h.erase k).outside j w hm
    rw [Array.size_push] at hj
    have hij : j = i := Int64.toInt_inj.mp (by push_cast at hj; omega)
    subst hij
    subst hk
    exact Entries.not_mem_keys_erase h.distinct (List.mem_map_of_mem (f := Prod.fst) hm)

theorem lookup_push (h : Orderly items entries) {i : Int64} (hi : i.toInt = items.size + 1)
    (v : Value) (k : Key) : lookup (items.push v) (entries.erase (.int i)) k =
      if .int i = k then v else lookup items entries k := by
  by_cases hk : .int i = k
  · subst hk
    have hs : i.toInt.toNat - 1 = items.size := by omega
    rw [if_pos rfl, lookup_int, Array.size_push, if_pos (by omega), hs]
    simp
  · rw [if_neg hk]
    cases k with
    | int j =>
      have hij : j.toInt ≠ i.toInt := fun he => hk (by rw [Int64.toInt_inj.mp he])
      rw [lookup_int, lookup_int, Array.size_push, Entries.find?_erase h.distinct, if_neg hk]
      by_cases hj : 1 ≤ j.toInt ∧ j.toInt ≤ items.size
      · rw [if_pos (by omega), if_pos hj, Array.getD_eq_getD_getElem?,
          Array.getElem?_push_lt (by omega), Array.getD_eq_getD_getElem?, Array.getElem?_eq_getElem]
      · rw [if_neg (by push_cast; omega), if_neg hj]
    | _ =>
      rw [lookup_other (by simp), lookup_other (by simp), Entries.find?_erase h.distinct, if_neg hk]

theorem lookup_of_find? (h : Orderly items entries) {i : Int64} {v : Value}
    (hf : entries.find? (.int i) = some v) : lookup items entries (.int i) = v := by
  rw [lookup_int, if_neg (h.outside i v (Entries.mem_of_find? hf)), hf]
  rfl

theorem pull_none (n : Nat) (h : continuation? items.size entries = none) :
    pull (n + 1) items entries = (items, entries) := by
  rw [pull, h]

theorem pull_some (n : Nat) {k : Key} {v : Value}
    (h : continuation? items.size entries = some (k, v)) :
    pull (n + 1) items entries = pull n (items.push v) (entries.erase k) := by
  rw [pull, h]

/-- Entries are moved until none continues the sequence; nothing is lost. -/
theorem pull_orderly (n : Nat) (h : Orderly items entries) (hn : entries.length ≤ n) :
    Orderly (pull n items entries).1 (pull n items entries).2 ∧
      continuation? (pull n items entries).1.size (pull n items entries).2 = none ∧
      ∀ k, lookup (pull n items entries).1 (pull n items entries).2 k = lookup items entries k := by
  -- an entry that moves is one fewer, so the bound lasts
  induction n generalizing items entries with
  | zero =>
    obtain rfl : entries = [] := List.length_eq_zero_iff.mp (by omega)
    refine ⟨h, ?_, fun _ => rfl⟩
    unfold continuation?
    split <;> rfl
  | succ n ih =>
    rcases Option.eq_none_or_eq_some (continuation? items.size entries) with hc | ⟨⟨k, v⟩, hc⟩
    · rw [pull_none n hc]
      exact ⟨h, hc, fun _ => rfl⟩
    · rw [pull_some n hc]
      obtain ⟨i, rfl, hi, hf⟩ := continuation?_eq_some hc
      have hl := Entries.length_erase hf
      obtain ⟨ho, hn, hv⟩ := ih
        (h.push rfl hi (h.filled _ _ (Entries.mem_of_find? hf))) (by omega)
      refine ⟨ho, hn, fun l => ?_⟩
      rw [hv, lookup_push h hi]
      split
      · next hk => rw [← hk, lookup_of_find? h hf]
      · rfl

end Pull

section Put

theorem WellFormed.congr {t' : Table} (h : t.WellFormed)
    (he : t'.items = t.items ∧ t'.entries = t.entries) : t'.WellFormed := by
  obtain ⟨hs, he⟩ := he
  refine ⟨?_, ?_⟩
  · rw [hs, he]
    exact h.toOrderly
  · rw [hs, he]
    exact h.next

inductive Place (n : Nat) (k : Key) : Prop where
  | item (i : Int64) : k = .int i → 1 ≤ i.toInt → i.toInt ≤ n → Place n k
  | next (i : Int64) : k = .int i → i.toInt = n + 1 → Place n k
  | entry : (∀ i, k = .int i → ¬(1 ≤ i.toInt ∧ i.toInt ≤ n) ∧ i.toInt ≠ n + 1) → Place n k

theorem place (n : Nat) (k : Key) : Place n k := by
  cases k with
  | int i =>
    by_cases hi : 1 ≤ i.toInt ∧ i.toInt ≤ n
    · exact .item i rfl hi.1 hi.2
    · by_cases hn : i.toInt = n + 1
      · exact .next i rfl hn
      · exact .entry fun j hj => Key.int.inj hj ▸ ⟨hi, hn⟩
  | _ => exact .entry nofun

theorem putKey_item {i : Int64} (h : 1 ≤ i.toInt ∧ i.toInt ≤ t.items.size) (v : Value) :
    t.putKey (.int i) v = t.putItem (i.toInt.toNat - 1) v := if_pos h

theorem putKey_next {i : Int64} (h : i.toInt = t.items.size + 1) (v : Value) :
    t.putKey (.int i) v = t.append (.int i) v :=
  (if_neg (by omega)).trans (if_pos h)

theorem putKey_entry {k : Key}
    (h : ∀ i, k = .int i → ¬(1 ≤ i.toInt ∧ i.toInt ≤ t.items.size) ∧ i.toInt ≠ t.items.size + 1)
    (v : Value) : t.putKey k v = t.putEntry k v := by
  cases k with
  | int i => exact (if_neg (h i rfl).1).trans (if_neg (h i rfl).2)
  | _ => rfl

theorem isNil_eq_true {v : Value} : v.isNil = true ↔ v = .nil := by
  cases v <;> simp [Value.isNil]

def overwrite (items : Array Value) (i : Nat) (v : Value) : Array Value :=
  if i + 1 = items.size ∧ v = .nil then trim (items.setIfInBounds i v) else items.setIfInBounds i v

theorem items_putItem (t : Table) (i : Nat) (v : Value) :
    (t.putItem i v).items = overwrite t.items i v := by
  unfold putItem overwrite
  simp only [Bool.and_eq_true, beq_iff_eq, isNil_eq_true]

theorem getD_overwrite (items : Array Value) {i : Nat} (hi : i < items.size) (v : Value) (j : Nat) :
    (overwrite items i v).getD j .nil = if i = j then v else items.getD j .nil := by
  have hs : (items.setIfInBounds i v).getD j .nil = if i = j then v else items.getD j .nil := by
    rw [Array.getD_eq_getD_getElem?, Array.getElem?_setIfInBounds, Array.getD_eq_getD_getElem?]
    split
    · rfl
    · rfl
  unfold overwrite
  split
  · rw [getD_trim, hs]
  · exact hs

theorem size_overwrite_le (items : Array Value) (i : Nat) (v : Value) :
    (overwrite items i v).size ≤ items.size := by
  have hs : (items.setIfInBounds i v).size = items.size := Array.size_setIfInBounds
  unfold overwrite
  split
  · exact Nat.le_trans (trim_size_le _) (Nat.le_of_eq hs)
  · exact Nat.le_of_eq hs

theorem back?_overwrite (h : items.back? ≠ some .nil) {i : Nat} (hi : i < items.size) (v : Value) :
    (overwrite items i v).back? ≠ some .nil := by
  unfold overwrite
  split
  · exact back?_trim _
  · next hc =>
    rw [Array.back?_eq_getElem?] at h
    rw [Array.back?_eq_getElem?, Array.size_setIfInBounds, Array.getElem?_setIfInBounds]
    split
    · exact fun hv => hc ⟨by omega, Option.some.inj hv⟩
    · exact h

theorem wellFormed_putItem (h : t.WellFormed) {i : Nat} (hi : i < t.items.size) (v : Value) :
    (t.putItem i v).WellFormed := by
  have hs := size_overwrite_le t.items i v
  have hitems := items_putItem t i v
  refine ⟨⟨?_, ?_, h.distinct, h.filled, h.normal, fun j w hm hj => ?_⟩, fun j w hm hj => ?_⟩
  · rw [hitems]
    exact back?_overwrite h.last hi v
  · have := h.fits
    rw [hitems]
    omega
  · rw [hitems] at hj
    exact h.outside j w hm (by omega)
  · rw [hitems] at hj
    have ho := h.outside j w hm
    have hn := h.next j w hm
    omega

theorem getKey_putItem (h : t.WellFormed) {i : Int64}
    (hi : 1 ≤ i.toInt ∧ i.toInt ≤ t.items.size) (v : Value) (k : Key) :
    (t.putItem (i.toInt.toNat - 1) v).getKey k = if .int i = k then v else t.getKey k := by
  have hlt : i.toInt.toNat - 1 < t.items.size := by omega
  have hs := size_overwrite_le t.items (i.toInt.toNat - 1) v
  rw [getKey_eq_lookup, items_putItem, getKey_eq_lookup]
  change lookup _ t.entries k = _
  cases k with
  | int j =>
    have hv := getD_overwrite t.items hlt v (j.toInt.toNat - 1)
    rw [lookup_int, lookup_int]
    by_cases hj : 1 ≤ j.toInt ∧ j.toInt ≤ t.items.size
    · -- What lies beyond the end of the sequence reads as nil, and so does a key without an entry.
      have hr : (if 1 ≤ j.toInt ∧ j.toInt ≤ (overwrite t.items (i.toInt.toNat - 1) v).size then
          (overwrite t.items (i.toInt.toNat - 1) v).getD (j.toInt.toNat - 1) .nil
          else (t.entries.find? (.int j)).getD .nil) =
          (overwrite t.items (i.toInt.toNat - 1) v).getD (j.toInt.toNat - 1) .nil := by
        split
        · rfl
        · rw [h.find?_of_inside hj, Array.getD_eq_getD_getElem?, Array.getElem?_eq_none (by omega)]
      rw [hr, hv, if_pos hj]
      by_cases hk : Key.int i = .int j
      · rw [if_pos hk, if_pos (by rw [Key.int.inj hk])]
      · have hne : i.toInt ≠ j.toInt := fun he => hk (by rw [Int64.toInt_inj.mp he])
        rw [if_neg hk, if_neg (by omega)]
    · have hk : Key.int i ≠ .int j := fun hk => hj (Key.int.inj hk ▸ hi)
      rw [if_neg hj, if_neg hk, if_neg (by omega)]
  | _ => rfl

theorem wellFormed_putEntry (h : t.WellFormed) {k : Key} (hk : k.IsNormal)
    (hp : ∀ i, k = .int i → ¬(1 ≤ i.toInt ∧ i.toInt ≤ t.items.size) ∧ i.toInt ≠ t.items.size + 1)
    (v : Value) : (t.putEntry k v).WellFormed := by
  by_cases hv : v = .nil
  · subst hv
    exact ⟨h.toOrderly.erase k, fun i w hm => h.next i w (Entries.mem_of_mem_erase hm)⟩
  · have he : (t.putEntry k v).entries = t.entries.insert k v :=
      if_neg fun hn => hv (isNil_eq_true.mp hn)
    have hm : ∀ {l w}, (l, w) ∈ (t.putEntry k v).entries → l = k ∧ w = v ∨ (l, w) ∈ t.entries := by
      intro l w hm
      rw [he] at hm
      exact (Entries.mem_of_mem_insert hm).imp_left fun hl => Prod.mk.inj hl
    refine ⟨⟨h.last, h.fits, ?_, fun l w hw => ?_, fun l w hw => ?_, fun i w hw => ?_⟩,
      fun i w hw => ?_⟩
    · rw [he]
      exact Entries.nodup_keys_insert h.distinct
    · rcases hm hw with ⟨-, rfl⟩ | hw
      · exact hv
      · exact h.filled l w hw
    · rcases hm hw with ⟨rfl, -⟩ | hw
      · exact hk
      · exact h.normal l w hw
    · rcases hm hw with ⟨hi, -⟩ | hw
      · exact (hp i hi.symm).1
      · exact h.outside i w hw
    · rcases hm hw with ⟨hi, -⟩ | hw
      · exact (hp i hi.symm).2
      · exact h.next i w hw

theorem getKey_putEntry (h : t.WellFormed) {k : Key}
    (hp : ∀ i, k = .int i → ¬(1 ≤ i.toInt ∧ i.toInt ≤ t.items.size) ∧ i.toInt ≠ t.items.size + 1)
    (v : Value) (l : Key) : (t.putEntry k v).getKey l = if k = l then v else t.getKey l := by
  have hf : ((t.putEntry k v).entries.find? l).getD .nil =
      if k = l then v else (t.entries.find? l).getD .nil := by
    unfold putEntry
    by_cases hv : v = .nil
    · subst hv
      change ((t.entries.erase k).find? l).getD .nil = _
      rw [Entries.find?_erase h.distinct]
      split <;> rfl
    · rw [if_neg fun hn => hv (isNil_eq_true.mp hn), Entries.find?_insert]
      split <;> rfl
  rw [getKey_eq_lookup, getKey_eq_lookup]
  cases l with
  | int j =>
    rw [lookup_int, lookup_int, hf]
    change (if 1 ≤ j.toInt ∧ j.toInt ≤ t.items.size then t.items.getD _ _ else _) = _
    by_cases hj : 1 ≤ j.toInt ∧ j.toInt ≤ t.items.size
    · rw [if_pos hj, if_pos hj, if_neg fun hk => (hp j hk).1 hj]
    · rw [if_neg hj, if_neg hj]
  | _ => exact hf

theorem WellFormed.find?_next (h : t.WellFormed) {i : Int64} (hi : i.toInt = t.items.size + 1) :
    t.entries.find? (.int i) = none := by
  cases hf : t.entries.find? (.int i) with
  | none => rfl
  | some w => exact absurd hi (h.next i w (Entries.mem_of_find? hf))

theorem append_nil (h : t.WellFormed) {i : Int64} (hi : i.toInt = t.items.size + 1) :
    (t.append (.int i) .nil).items = t.items ∧ (t.append (.int i) .nil).entries = t.entries := by
  have hf := h.find?_next hi
  refine ⟨rfl, ?_⟩
  change (if (t.entries.find? (.int i)).isSome = true then _ else t.entries) = t.entries
  rw [hf]
  rfl

theorem append_item (h : t.WellFormed) {i : Int64} (hi : i.toInt = t.items.size + 1) {v : Value}
    (hv : v ≠ .nil) :
    ((t.append (.int i) v).items, (t.append (.int i) v).entries) =
      pull t.entries.length (t.items.push v) t.entries := by
  have hn : ¬v.isNil = true := fun hn => hv (isNil_eq_true.mp hn)
  unfold append
  simp only [h.find?_next hi, Option.isSome_none, Bool.false_eq_true, if_false, if_neg hn]

theorem wellFormed_append (h : t.WellFormed) {i : Int64} (hi : i.toInt = t.items.size + 1)
    (v : Value) : (t.append (.int i) v).WellFormed := by
  by_cases hv : v = .nil
  · subst hv
    obtain ⟨hs, he⟩ := append_nil h hi
    exact h.congr ⟨hs, he⟩
  · have he := append_item h hi hv
    have ho : Orderly (t.items.push v) t.entries :=
      Entries.erase_eq_self (h.find?_next hi) ▸ h.toOrderly.push rfl hi hv
    obtain ⟨hp, hn, -⟩ := pull_orderly t.entries.length ho (Nat.le_refl _)
    rw [← he] at hp hn
    refine ⟨hp, fun j w hm hj => ?_⟩
    have hf := continuation?_eq_none hn hj
    rw [Entries.find?_of_mem hp.distinct hm] at hf
    cases hf

theorem getKey_append (h : t.WellFormed) {i : Int64} (hi : i.toInt = t.items.size + 1)
    (v : Value) (k : Key) :
    (t.append (.int i) v).getKey k = if .int i = k then v else t.getKey k := by
  have hf := h.find?_next hi
  rw [getKey_eq_lookup, getKey_eq_lookup]
  by_cases hv : v = .nil
  · subst hv
    obtain ⟨hs, he⟩ := append_nil h hi
    rw [hs, he]
    split
    · next hk =>
      rw [← hk, lookup_int, if_neg (by omega), hf]
      rfl
    · rfl
  · have he := append_item h hi hv
    have hl := lookup_push h.toOrderly hi v
    have ho := h.toOrderly.push rfl hi hv
    rw [Entries.erase_eq_self hf] at hl ho
    obtain ⟨-, -, hp⟩ := pull_orderly t.entries.length ho (Nat.le_refl _)
    rw [← he] at hp
    rw [hp, hl]

theorem wellFormed_putKey (h : t.WellFormed) {k : Key} (hk : k.IsNormal) (v : Value) :
    (t.putKey k v).WellFormed := by
  cases place t.items.size k with
  | item i he hl hu =>
    rw [he, putKey_item ⟨hl, hu⟩]
    exact wellFormed_putItem h (by omega) v
  | next i he hi =>
    rw [he, putKey_next hi]
    exact wellFormed_append h hi v
  | entry hp =>
    rw [putKey_entry hp]
    exact wellFormed_putEntry h hk hp v

theorem getKey_putKey (h : t.WellFormed) (k : Key) (v : Value) (l : Key) :
    (t.putKey k v).getKey l = if k = l then v else t.getKey l := by
  cases place t.items.size k with
  | item i he hl hu =>
    rw [he, putKey_item ⟨hl, hu⟩]
    exact getKey_putItem h ⟨hl, hu⟩ v l
  | next i he hi =>
    rw [he, putKey_next hi]
    exact getKey_append h hi v l
  | entry hp =>
    rw [putKey_entry hp]
    exact getKey_putEntry h hp v l

end Put

theorem next_eq (t : Table) (k : Value) :
    (t.next k).1.items = t.items ∧ (t.next k).1.entries = t.entries := by
  have hr : ∀ b, (t.refresh b).items = t.items ∧ (t.refresh b).entries = t.entries := fun b => by
    unfold refresh
    split <;> exact ⟨rfl, rfl⟩
  unfold next
  dsimp only
  split
  · exact hr _
  · split <;> exact hr _

end Table
end LuaMachine
