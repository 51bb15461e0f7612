import LuaMachine.Proofs.Table.History

namespace LuaMachine

namespace Entries

theorem keys_insert_of_find? {es : Entries} {k : Key} {v w : Value} (h : es.find? k = some w) :
    (es.insert k v).keys = es.keys := by
  induction es with
  | nil => cases h
  | cons e es ih =>
    obtain ⟨j, u⟩ := e
    by_cases hj : j = k
    · subst hj
      simp [insert, keys]
    · have hk : keys (insert k v es) = keys es := ih (by simpa [find?, hj] using h)
      simpa [insert, keys, hj] using hk

end Entries

namespace Table

variable {t : Table} {k : Key} {ks : List Key} {v : Value}

section Keys

def indexKey (i : Nat) : Key := .int (Int64.ofNat (i + 1))

/-- The keys of a sequence that have a value, in ascending order. -/
def sequence (items : Array Value) : List Key :=
  (List.range items.size).filterMap fun i =>
    if (items.getD i .nil).isNil then none else some (indexKey i)

theorem keys_eq (t : Table) : t.keys = sequence t.items ++ t.entries.keys := by
  refine congrArg (· ++ t.entries.keys) ?_
  have hz : t.items.toList.zipIdx =
      (List.range t.items.size).map fun i => (t.items.getD i .nil, i) := by
    refine List.ext_getElem (by simp) fun i hi _ => ?_
    have hs : i < t.items.size := by simpa using hi
    simp [Array.getD, hs]
  rw [hz, List.filterMap_map]
  rfl

theorem sequence_congr {items items' : Array Value} (hs : items.size = items'.size)
    (h : ∀ i, (items.getD i .nil).isNil = (items'.getD i .nil).isNil) :
    sequence items = sequence items' := by
  simp only [sequence, hs, h]

theorem toInt_index {items : Array Value} (hf : (items.size : Int) ≤ Int64.maxValue.toInt) {i : Nat}
    (hi : i < items.size) : (Int64.ofNat (i + 1)).toInt = i + 1 :=
  toInt_ofNat (show i + 1 ≤ 0x7FFFFFFFFFFFFFFF from by
    have : (items.size : Int) ≤ 0x7FFFFFFFFFFFFFFF := hf
    omega)

theorem indexed_eq_some {items : Array Value} {i : Nat} :
    (if (items.getD i .nil).isNil then none else some (indexKey i)) = some k ↔
      items.getD i .nil ≠ .nil ∧ k = indexKey i := by
  by_cases hv : (items.getD i .nil).isNil
  · rw [if_pos hv]
    simp [isNil_eq_true.mp hv]
  · rw [if_neg hv, Option.some_inj, eq_comm]
    exact (and_iff_right fun hn => hv (isNil_eq_true.mpr hn)).symm

theorem mem_sequence {items : Array Value} (hf : (items.size : Int) ≤ Int64.maxValue.toInt) :
    k ∈ sequence items ↔ ∃ i : Int64, k = .int i ∧ (1 ≤ i.toInt ∧ i.toInt ≤ items.size) ∧
      items.getD (i.toInt.toNat - 1) .nil ≠ .nil := by
  simp only [sequence, List.mem_filterMap, List.mem_range, indexed_eq_some]
  constructor
  · rintro ⟨i, hs, hv, rfl⟩
    have he := toInt_index hf hs
    refine ⟨_, rfl, by omega, ?_⟩
    rw [he]
    exact hv
  · rintro ⟨i, rfl, hb, hv⟩
    refine ⟨i.toInt.toNat - 1, by omega, hv, congrArg Key.int (Int64.toInt_inj.mp ?_)⟩
    rw [toInt_index hf (by omega)]
    omega

def KeyLt (j k : Key) : Prop := ∃ i i' : Int64, j = .int i ∧ k = .int i' ∧ i.toInt < i'.toInt

theorem pairwise_sequence {items : Array Value}
    (hf : (items.size : Int) ≤ Int64.maxValue.toInt) : (sequence items).Pairwise KeyLt := by
  rw [sequence, List.pairwise_filterMap]
  refine List.pairwise_lt_range.imp_of_mem fun {i j} hi hj hl b hb b' hb' => ?_
  obtain ⟨-, rfl⟩ := indexed_eq_some.mp hb
  obtain ⟨-, rfl⟩ := indexed_eq_some.mp hb'
  refine ⟨_, _, rfl, rfl, ?_⟩
  rw [toInt_index hf (List.mem_range.mp hi), toInt_index hf (List.mem_range.mp hj)]
  omega

theorem WellFormed.mem_keys (h : t.WellFormed) : k ∈ t.keys ↔ t.getKey k ≠ .nil := by
  have he : k ∈ t.entries.keys ↔ (t.entries.find? k).getD .nil ≠ .nil := by
    constructor
    · intro hk
      obtain ⟨⟨j, v⟩, hm, rfl⟩ := List.mem_map.mp hk
      rw [Entries.find?_of_mem h.distinct hm]
      exact h.filled _ _ hm
    · intro hn
      by_contra hk
      exact hn (by rw [Entries.find?_eq_none hk]; rfl)
  rw [keys_eq, List.mem_append, mem_sequence h.fits, he, getKey_eq_lookup]
  cases k with
  | int i =>
    rw [lookup_int]
    by_cases hb : 1 ≤ i.toInt ∧ i.toInt ≤ t.items.size
    · rw [if_pos hb, h.toOrderly.find?_of_inside hb]
      simp [hb]
    · rw [if_neg hb]
      simp only [Key.int.injEq]
      constructor
      · rintro (⟨_, rfl, hb', -⟩ | he)
        · exact absurd hb' hb
        · exact he
      · exact .inr
  | _ =>
    rw [lookup_other (by simp)]
    simp

theorem WellFormed.isNormal_of_mem_keys (h : t.WellFormed) (hk : k ∈ t.keys) : k.IsNormal := by
  rw [keys_eq, List.mem_append, mem_sequence h.fits] at hk
  rcases hk with ⟨i, rfl, -⟩ | hk
  · exact Key.isNormal_int i
  · obtain ⟨⟨j, v⟩, hm, rfl⟩ := List.mem_map.mp hk
    exact h.normal _ _ hm

theorem WellFormed.nodup_keys (h : t.WellFormed) : t.keys.Nodup := by
  rw [keys_eq]
  refine List.nodup_append.mpr ⟨?_, h.distinct, ?_⟩
  · refine (pairwise_sequence h.fits).imp fun {j k} => ?_
    rintro ⟨i, i', rfl, rfl, hl⟩ he
    cases he
    exact Int.lt_irrefl _ hl
  · rintro k hs _ he rfl
    obtain ⟨i, rfl, hb, -⟩ := (mem_sequence h.fits).mp hs
    obtain ⟨⟨j, v⟩, hm, hj⟩ := List.mem_map.mp he
    cases hj
    exact h.outside _ _ hm hb

end Keys

section Changed

theorem WellFormed.getKey_next (h : t.WellFormed) {i : Int64} (hi : i.toInt = t.items.size + 1) :
    t.getKey (.int i) = .nil := by
  rw [getKey_eq_lookup, lookup_int, if_neg (by omega), h.find?_next hi]
  rfl

theorem getKey_entry (hp : ∀ i, k = .int i → ¬(1 ≤ i.toInt ∧ i.toInt ≤ t.items.size)) :
    t.getKey k = (t.entries.find? k).getD .nil := by
  cases k with
  | int i => rw [getKey_eq_lookup, lookup_int, if_neg (hp i rfl)]
  | _ => rfl

theorem WellFormed.isNil_of_find? (h : t.WellFormed) (hf : t.entries.find? k = some v) :
    v.isNil = false := by
  rw [← Bool.not_eq_true, isNil_eq_true]
  exact h.filled _ _ (Entries.mem_of_find? hf)

theorem WellFormed.changed_putKey (h : t.WellFormed) (k : Key) (v : Value) :
    (t.putKey k v).changed = (t.changed || (t.getKey k).isNil != v.isNil) := by
  have hnil : Value.nil.isNil = true := rfl
  rcases place t.items.size k with ⟨i, rfl, hl, hu⟩ | ⟨i, rfl, hi⟩ | hp
  · rw [putKey_item ⟨hl, hu⟩, getKey_eq_lookup, lookup_int, if_pos ⟨hl, hu⟩]
    rfl
  · rw [putKey_next hi, h.getKey_next hi, append, h.find?_next hi]
    cases hv : v.isNil <;> simp [hnil]
  · rw [putKey_entry hp, getKey_entry fun i hi => (hp i hi).1, putEntry]
    cases hf : t.entries.find? k with
    | none => cases hv : v.isNil <;> simp [hnil]
    | some w => cases hv : v.isNil <;> simp [h.isNil_of_find? hf]

theorem size_overwrite {items : Array Value} (hb : items.back? ≠ some .nil) {i : Nat}
    (hi : i < items.size) (hn : (items.getD i .nil).isNil = v.isNil) :
    (overwrite items i v).size = items.size := by
  rw [overwrite, if_neg, Array.size_setIfInBounds]
  rintro ⟨hl, rfl⟩
  have hv : items.getD i .nil = .nil := isNil_eq_true.mp hn
  refine hb ?_
  rw [Array.back?_eq_getElem?, ← hl, Nat.add_sub_cancel, ← hv]
  simp [Array.getD, hi]

theorem WellFormed.keys_putKey (h : t.WellFormed) (hn : (t.getKey k).isNil = v.isNil) :
    (t.putKey k v).keys = t.keys := by
  rcases place t.items.size k with ⟨i, rfl, hl, hu⟩ | ⟨i, rfl, hi⟩ | hp
  · rw [getKey_eq_lookup, lookup_int, if_pos ⟨hl, hu⟩] at hn
    rw [putKey_item ⟨hl, hu⟩, keys_eq, keys_eq, items_putItem]
    refine congrArg (· ++ t.entries.keys)
      (sequence_congr (size_overwrite h.last (by omega) hn) fun j => ?_)
    rw [getD_overwrite _ (by omega)]
    split
    · subst_vars
      exact hn.symm
    · rfl
  · rw [h.getKey_next hi] at hn
    obtain rfl : v = .nil := isNil_eq_true.mp hn.symm
    obtain ⟨hi', he'⟩ := append_nil h hi
    rw [putKey_next hi, keys_eq, keys_eq, hi', he']
  · rw [getKey_entry fun i hi => (hp i hi).1] at hn
    rw [putKey_entry hp, keys_eq, keys_eq, putEntry]
    refine congrArg (sequence t.items ++ ·) ?_
    cases hf : t.entries.find? k with
    | none =>
      rw [hf] at hn
      have hv : v.isNil = true := hn.symm
      rw [if_pos hv, Entries.erase_eq_self hf]
    | some w =>
      rw [hf, Option.getD_some, h.isNil_of_find? hf] at hn
      rw [if_neg (by simp [← hn]), Entries.keys_insert_of_find? hf]

end Changed

section Traced

/-- What is known of the order in use: it has no repeated keys and no values that are no keys, and
as long as nothing has changed it is what a new traversal would have. -/
structure Traced (t : Table) : Prop where
  distinct : ∀ ks, t.order = some ks → ks.Nodup
  normal : ∀ ks, t.order = some ks → ∀ k ∈ ks, k.IsNormal
  current : ∀ ks, t.order = some ks → t.changed = false → ks = t.keys

theorem order_putKey (t : Table) (k : Key) (v : Value) : (t.putKey k v).order = t.order := by
  have happend : ∀ l, (t.append l v).order = t.order := fun l => by
    rw [append]
    split <;> rfl
  rcases place t.items.size k with ⟨i, rfl, hl, hu⟩ | ⟨i, rfl, hi⟩ | hp
  · rw [putKey_item ⟨hl, hu⟩]
    rfl
  · rw [putKey_next hi, happend]
  · rw [putKey_entry hp]
    rfl

theorem Traced.putKey (ht : t.Traced) (h : t.WellFormed) (k : Key) (v : Value) :
    (t.putKey k v).Traced where
  distinct ks ho := ht.distinct ks (order_putKey t k v ▸ ho)
  normal ks ho := ht.normal ks (order_putKey t k v ▸ ho)
  current ks ho hc := by
    rw [h.changed_putKey, Bool.or_eq_false_iff, bne_eq_false_iff_eq] at hc
    rw [h.keys_putKey hc.2]
    exact ht.current ks (order_putKey t k v ▸ ho) hc.1

/-- The table with the order that a traversal has which starts now. -/
def restarted (t : Table) : Table := { t with order := some t.keys, changed := false }

theorem WellFormed.traced_restarted (h : t.WellFormed) : t.restarted.Traced where
  distinct _ ho := Option.some.inj ho ▸ h.nodup_keys
  normal _ ho _ hk := h.isNormal_of_mem_keys (Option.some.inj ho ▸ hk)
  current _ ho _ := (Option.some.inj ho).symm

theorem refresh_none (ho : t.order = none) (s : Bool) : t.refresh s = t.restarted := by
  rw [refresh, ho]
  rfl

theorem refresh_some (ho : t.order = some ks) : t.refresh false = t := by
  rw [refresh, ho]
  rfl

/-- The start of a traversal fixes the order, also where the one in use is kept. -/
theorem Traced.refresh_start (ht : t.Traced) : t.refresh true = t.restarted := by
  cases ho : t.order with
  | none => exact refresh_none ho true
  | some ks =>
    cases hc : t.changed with
    | true =>
      rw [refresh, ho, hc]
      rfl
    | false =>
      rw [refresh, restarted, ← ht.current ks ho hc, ← ho, ← hc]
      exact if_neg (by simp [ho, hc])

theorem Traced.refresh (ht : t.Traced) (h : t.WellFormed) (s : Bool) : (t.refresh s).Traced := by
  cases s with
  | true =>
    rw [ht.refresh_start]
    exact h.traced_restarted
  | false =>
    cases ho : t.order with
    | none =>
      rw [refresh_none ho]
      exact h.traced_restarted
    | some ks => rwa [refresh_some ho]

theorem next_fst (t : Table) (k : Value) : (t.next k).1 = t.refresh k.isNil := by
  rw [next]
  split
  · rfl
  · split <;> rfl

theorem Reachable.traced (ht : t.Reachable) : t.Traced := by
  induction ht with
  | new => exact ⟨nofun, nofun, nofun⟩
  | put ht hp ih =>
    obtain ⟨j, -, rfl⟩ := put_eq_ok_iff.mp hp
    exact ih.putKey ht.wellFormed j _
  | putInt i v ht ih => exact ih.putKey ht.wellFormed _ v
  | next k ht ih =>
    rw [next_fst]
    exact ih.refresh ht.wellFormed _

end Traced

section Next

theorem after?_eq_none : after? k ks = none ↔ k ∉ ks := by
  induction ks with
  | nil => simp [after?]
  | cons j ks ih =>
    by_cases hj : j = k
    · simp [after?, hj]
    · simp [after?, hj, ih, Ne.symm hj]

theorem after?_append {p r : List Key} (h : k ∉ p) : after? k (p ++ k :: r) = some r := by
  induction p with
  | nil => exact if_pos rfl
  | cons j p ih =>
    rw [List.mem_cons, not_or] at h
    rw [List.cons_append, after?, if_neg (Ne.symm h.1), ih h.2]

theorem firstAlive_eq_key : t.firstAlive ks = .key k ↔
    ∃ p r, ks = p ++ k :: r ∧ (∀ j ∈ p, t.getKey j = .nil) ∧ t.getKey k ≠ .nil := by
  have hn : ∀ j, (!(t.getKey j).isNil) = true ↔ t.getKey j ≠ .nil := fun j => by
    rw [Bool.not_eq_true', ← Bool.not_eq_true, isNil_eq_true]
  have hf : t.firstAlive ks = .key k ↔ ks.find? (fun k => !(t.getKey k).isNil) = some k := by
    rw [firstAlive]
    cases ks.find? fun k => !(t.getKey k).isNil <;> simp
  rw [hf, List.find?_eq_some_iff_append, hn]
  constructor
  · rintro ⟨hk, p, r, he, hp⟩
    exact ⟨p, r, he, fun j hj => isNil_eq_true.mp (by simpa using hp j hj), hk⟩
  · rintro ⟨p, r, he, hp, hk⟩
    exact ⟨hk, p, r, he, fun j hj => by simpa using isNil_eq_true.mpr (hp j hj)⟩

theorem firstAlive_eq_finished : t.firstAlive ks = .finished ↔ ∀ k ∈ ks, t.getKey k = .nil := by
  have hf : t.firstAlive ks = .finished ↔ ks.find? (fun k => !(t.getKey k).isNil) = none := by
    rw [firstAlive]
    cases ks.find? fun k => !(t.getKey k).isNil <;> simp
  rw [hf, List.find?_eq_none]
  refine forall₂_congr fun k _ => ?_
  rw [Bool.not_eq_true', ← Bool.not_eq_true, isNil_eq_true, not_not]

theorem firstAlive_ne_unknown : t.firstAlive ks ≠ .unknown := by
  rw [firstAlive]
  cases ks.find? fun k => !(t.getKey k).isNil <;> simp

theorem next_nil (ht : t.Traced) : t.next .nil = (t.restarted, t.firstAlive t.keys) := by
  have hr : t.refresh Value.nil.isNil = t.restarted := ht.refresh_start
  rw [next, hr]
  exact if_pos rfl

theorem isNil_of_ofValue? {v : Value} (hk : Key.ofValue? v = some k) : v.isNil = false := by
  cases v with
  | nil => cases hk
  | _ => rfl

theorem next_key {v : Value} (hk : Key.ofValue? v = some k) (ho : t.order = some ks) :
    t.next v = (t, match after? k ks with
      | some rest => t.firstAlive rest
      | none => .unknown) := by
  have hn := isNil_of_ofValue? hk
  have hr : t.refresh v.isNil = t := by rw [hn, refresh_some ho]
  rw [next, hr, if_neg (by simp [hn]), ho, Option.getD_some, hk, Option.bind_some]
  cases after? k ks <;> rfl

end Next

end Table
end LuaMachine
