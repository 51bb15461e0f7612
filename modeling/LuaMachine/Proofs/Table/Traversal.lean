import LuaMachine.Proofs.Table.Order

namespace LuaMachine

namespace Table

variable {t₀ t t' : Table} {k : Key} {ks : List Key}

/-- What a traversal that got some keys asks with: the last one of them, or nil to start. -/
def cursor (ks : List Key) : Value := (ks.getLast?.map Key.toValue).getD .nil

/-- Assignments under keys that have a value, and steps of other traversals that have started
before. -/
inductive Tended (t : Table) : Table → Prop where
  | refl : Tended t t
  | put {t' t'' : Table} {k v : Value} : Tended t t' → t'.get k ≠ .nil → t'.put k v = .ok t'' →
      Tended t t''
  | next {t' : Table} {k : Value} : Tended t t' → k ≠ .nil → Tended t (t'.next k).1

/-- A traversal of a table that has got some keys, and the table as it is then. -/
inductive Traversal (t₀ : Table) : List Key → Table → Prop where
  | origin : Traversal t₀ [] t₀
  | step {ks : List Key} {t t' t'' : Table} {k : Key} : Traversal t₀ ks t →
      t.next (cursor ks) = (t', .key k) → t'.Tended t'' → Traversal t₀ (ks ++ [k]) t''

/-- The keys that a traversal of at most `n` steps gets, where `edit` says what becomes of the table
between them. -/
def visit (edit : List Key → Table → Table) : Nat → List Key → Table → Option (List Key)
  | 0, _, _ => none
  | n + 1, ks, t =>
    match t.next (cursor ks) with
    | (t', .key k) => visit edit n (ks ++ [k]) (edit (ks ++ [k]) t')
    | (_, .finished) => some ks
    | (_, .unknown) => none

def InSequence (t : Table) (k : Key) : Prop :=
  ∃ i : Int64, k = .int i ∧ 1 ≤ i.toInt ∧ i.toInt ≤ t.length

theorem cursor_concat (ks : List Key) (k : Key) : cursor (ks ++ [k]) = k.toValue := by
  rw [cursor, List.getLast?_concat]
  rfl

theorem getKey_next (t : Table) (v : Value) (k : Key) : (t.next v).1.getKey k = t.getKey k := by
  obtain ⟨hi, he⟩ := next_eq t v
  rw [getKey_eq_lookup, getKey_eq_lookup, hi, he]

theorem getKey_of_next {v : Value} {s : Successor} (h : t.next v = (t', s)) (k : Key) :
    t'.getKey k = t.getKey k := by
  rw [← getKey_next t v k, h]

section Tended

/-- What tending leaves as it is: no order is fixed anew, and no keys are added. -/
structure Thinned (t t' : Table) : Prop where
  wellFormed : t'.WellFormed
  order : ∀ ks, t.order = some ks → t'.order = some ks
  alive : ∀ k, t'.getKey k ≠ .nil → t.getKey k ≠ .nil

theorem thinned_put {k v : Value} (h : t.WellFormed) (hk : t.get k ≠ .nil)
    (hp : t.put k v = .ok t') : t.Thinned t' := by
  obtain ⟨j, hj, rfl⟩ := put_eq_ok_iff.mp hp
  refine ⟨wellFormed_putKey h (Key.isNormal_of_ofValue? hj) v, fun ks ho => ?_, fun l hl => ?_⟩
  · rw [order_putKey, ho]
  · rw [getKey_putKey h] at hl
    split at hl
    · subst_vars
      simpa only [get, hj] using hk
    · exact hl

theorem thinned_next {k : Value} (h : t.WellFormed) (hk : k ≠ .nil) :
    t.Thinned (t.next k).1 := by
  refine ⟨h.congr (next_eq t k), fun ks ho => ?_, fun l hl => getKey_next t k l ▸ hl⟩
  have hn : k.isNil = false := by
    rw [← Bool.not_eq_true, isNil_eq_true]
    exact hk
  rw [next_fst, hn, refresh_some ho, ho]

theorem Thinned.trans {t'' : Table} (h : t.Thinned t') (h' : t'.Thinned t'') : t.Thinned t'' :=
  ⟨h'.wellFormed, fun ks ho => h'.order ks (h.order ks ho), fun k hk => h.alive k (h'.alive k hk)⟩

theorem Tended.thinned (h : t.Tended t') (hw : t.WellFormed) : t.Thinned t' := by
  induction h with
  | refl => exact ⟨hw, fun _ => id, fun _ => id⟩
  | put _ hk hp ih => exact ih.trans (thinned_put ih.wellFormed hk hp)
  | next _ hk ih => exact ih.trans (thinned_next ih.wellFormed hk)

end Tended

/-- What holds on the way. The keys of the order are those that have been passed and those that are
still to come; a key that has been passed but not been got has no value any more. -/
structure Underway (t₀ : Table) (ks : List Key) (t : Table) (passed rest : List Key) : Prop where
  keys : t₀.keys = passed ++ rest
  got : ks.Sublist passed
  skipped : ∀ k ∈ passed, k ∉ ks → t.getKey k = .nil
  alive : ∀ k, t.getKey k ≠ .nil → t₀.getKey k ≠ .nil
  wellFormed : t.WellFormed
  turn : (t.next (cursor ks)).2 = t.firstAlive rest
  order : (t.next (cursor ks)).1.order = some t₀.keys

theorem underway_origin (h : t₀.WellFormed) (ht : t₀.Traced) : t₀.Underway [] t₀ [] t₀.keys where
  keys := rfl
  got := .slnil
  skipped := nofun
  alive _ := id
  wellFormed := h
  turn := congrArg Prod.snd (next_nil ht)
  order := congrArg (fun r => r.1.order) (next_nil ht)

/-- The first of the keys to come that has a value is the one that the step gets. -/
theorem Underway.step {passed rest : List Key} {t'' : Table} (h : t₀.Underway ks t passed rest)
    (h₀ : t₀.WellFormed) (hn : t.next (cursor ks) = (t', .key k)) (ht : t'.Tended t'') :
    ∃ passed rest, t₀.Underway (ks ++ [k]) t'' passed rest := by
  obtain ⟨p, r, rfl, hp, hk⟩ := firstAlive_eq_key.mp (h.turn.symm.trans (congrArg Prod.snd hn))
  have ht' : t' = (t.next (cursor ks)).1 := (congrArg Prod.fst hn).symm
  have hg := getKey_of_next hn
  have hth := ht.thinned (ht' ▸ h.wellFormed.congr (next_eq t _))
  have hkeys : t₀.keys = (passed ++ p) ++ k :: r := by rw [h.keys, List.append_assoc]
  have hnew : k ∉ passed ++ p := by
    have hd := hkeys ▸ h₀.nodup_keys
    exact fun hm => (List.nodup_append.mp hd).2.2 k hm k List.mem_cons_self rfl
  have ho : t''.order = some t₀.keys := hth.order _ (ht' ▸ h.order)
  have hnormal : k.IsNormal := h₀.isNormal_of_mem_keys (hkeys ▸ by simp)
  have hnext := next_key hnormal ho
  rw [hkeys, after?_append hnew, ← cursor_concat ks k] at hnext
  refine ⟨passed ++ p ++ [k], r, ⟨by simp [hkeys], ?_, fun l hl hks => ?_, fun l hl => ?_,
    hth.wellFormed, congrArg Prod.snd hnext, (congrArg (fun r => r.1.order) hnext).trans ho⟩⟩
  · exact (h.got.trans (List.sublist_append_left passed p)).append_right [k]
  · have hlk : l ≠ k := fun he => hks (by simp [he])
    have hlp : l ∈ passed ∨ l ∈ p := by simpa [hlk] using hl
    have hnil : t.getKey l = .nil := hlp.elim
      (fun hl => h.skipped l hl fun hm => hks (List.mem_append_left _ hm)) (hp l)
    exact of_not_not fun hv => (hg l ▸ hth.alive l hv) hnil
  · exact h.alive l (hg l ▸ hth.alive l hl)

theorem Traversal.underway (h : t₀.Traversal ks t) (h₀ : t₀.WellFormed) (ht₀ : t₀.Traced) :
    ∃ passed rest, t₀.Underway ks t passed rest := by
  induction h with
  | origin => exact ⟨_, _, underway_origin h₀ ht₀⟩
  | step _ hn ht ih =>
    obtain ⟨passed, rest, hu⟩ := ih
    exact hu.step h₀ hn ht

theorem Underway.pairwise_sequence {passed rest : List Key} (h : t₀.Underway ks t passed rest)
    (h₀ : t₀.WellFormed) :
    ks.Pairwise fun j k => t₀.InSequence k → t₀.InSequence j ∧ KeyLt j k := by
  have hkeys : t₀.keys.Pairwise fun j k => t₀.InSequence k → t₀.InSequence j ∧ KeyLt j k := by
    have hin : ∀ k, k ∈ Table.sequence t₀.items → t₀.InSequence k := fun k hk => by
      obtain ⟨i, rfl, hb, -⟩ := (mem_sequence h₀.fits).mp hk
      exact ⟨i, rfl, hb⟩
    have hout : ∀ k, k ∈ t₀.entries.keys → ¬t₀.InSequence k := by
      rintro _ hk ⟨i, rfl, hb⟩
      obtain ⟨⟨j, v⟩, hm, hj⟩ := List.mem_map.mp hk
      cases hj
      exact h₀.outside _ _ hm hb
    rw [keys_eq, List.pairwise_append]
    refine ⟨?_, ?_, fun j _ k hk hs => absurd hs (hout k hk)⟩
    · exact (Table.pairwise_sequence h₀.fits).imp_of_mem fun hj _ hl _ => ⟨hin _ hj, hl⟩
    · exact List.pairwise_of_forall_mem_list fun j _ k hk hs => absurd hs (hout k hk)
  exact hkeys.sublist (h.keys ▸ h.got.trans (List.sublist_append_left passed rest))

theorem Underway.length_le {passed rest : List Key} (h : t₀.Underway ks t passed rest) :
    ks.length ≤ t₀.keys.length := by
  have hl := h.got.length_le
  rw [h.keys, List.length_append]
  omega

theorem Traversal.visit (h : t₀.Traversal ks t) (h₀ : t₀.WellFormed) (ht₀ : t₀.Traced)
    {edit : List Key → Table → Table} (he : ∀ ks t, Tended t (edit ks t)) {n : Nat}
    (hn : t₀.keys.length + 1 ≤ ks.length + n) : ∃ ks' t', t₀.Traversal ks' t' ∧
      (t'.next (cursor ks')).2 = .finished ∧ visit edit n ks t = some ks' := by
  obtain ⟨passed, rest, hu⟩ := h.underway h₀ ht₀
  induction n generalizing ks t passed rest with
  | zero =>
    have := hu.length_le
    omega
  | succ n ih =>
    match hs : t.next (cursor ks) with
    | (t', .key k) =>
      have h' := h.step hs (he (ks ++ [k]) t')
      obtain ⟨passed', rest', hu'⟩ := h'.underway h₀ ht₀
      obtain ⟨ks', t'', hr⟩ := ih h' (by simp; omega) _ _ hu'
      exact ⟨ks', t'', by simpa only [Table.visit, hs] using hr⟩
    | (t', .finished) => exact ⟨ks, t, h, by rw [hs], by simp only [Table.visit, hs]⟩
    | (t', .unknown) =>
      exact absurd (hu.turn.symm.trans (congrArg Prod.snd hs)) firstAlive_ne_unknown

structure VisitsOnce (t₀ : Table) : Prop where
  steps : ∀ {ks t}, t₀.Traversal ks t → (t.next (cursor ks)).2 ≠ .unknown
  ends : ∀ edit : List Key → Table → Table, (∀ ks t, Tended t (edit ks t)) →
    ∃ ks t, t₀.Traversal ks t ∧ (t.next (cursor ks)).2 = .finished ∧
      visit edit (t₀.keys.length + 1) [] t₀ = some ks
  distinct : ∀ {ks t}, t₀.Traversal ks t → ks.Nodup
  alive : ∀ {ks t t' k}, t₀.Traversal ks t → t.next (cursor ks) = (t', .key k) →
    t'.getKey k ≠ .nil
  /-- No key has a value that had none at the start. -/
  origin : ∀ {ks t k}, t₀.Traversal ks t → t.getKey k ≠ .nil → t₀.getKey k ≠ .nil
  /-- The keys that still have a value in the end have all come. -/
  complete : ∀ {ks t k}, t₀.Traversal ks t → (t.next (cursor ks)).2 = .finished →
    t.getKey k ≠ .nil → k ∈ ks
  ascending : ∀ {ks t}, t₀.Traversal ks t →
    ks.Pairwise fun j k => t₀.InSequence k → t₀.InSequence j ∧ KeyLt j k

/-- A traversal visits every key once, whatever the table has been through and whatever is assigned
under keys with a value meanwhile. -/
theorem Reachable.visits_once (h : t₀.Reachable) : t₀.VisitsOnce where
  steps ht := by
    obtain ⟨_, _, hu⟩ := ht.underway h.wellFormed h.traced
    exact hu.turn ▸ firstAlive_ne_unknown
  ends _ he := Traversal.origin.visit h.wellFormed h.traced he (Nat.le_add_left _ _)
  distinct ht := by
    obtain ⟨passed, rest, hu⟩ := ht.underway h.wellFormed h.traced
    have hd := hu.keys ▸ h.wellFormed.nodup_keys
    exact (List.nodup_append.mp hd).1.sublist hu.got
  alive ht hn := by
    obtain ⟨_, _, hu⟩ := ht.underway h.wellFormed h.traced
    obtain ⟨_, _, -, -, hk⟩ := firstAlive_eq_key.mp (hu.turn.symm.trans (congrArg Prod.snd hn))
    rwa [getKey_of_next hn]
  origin ht := by
    obtain ⟨_, _, hu⟩ := ht.underway h.wellFormed h.traced
    exact hu.alive _
  complete ht hf hk := by
    obtain ⟨passed, rest, hu⟩ := ht.underway h.wellFormed h.traced
    have hrest := firstAlive_eq_finished.mp (hu.turn.symm.trans hf)
    have hm := h.wellFormed.mem_keys.mpr (hu.alive _ hk)
    rw [hu.keys, List.mem_append] at hm
    by_contra hks
    exact hm.elim (fun hp => hk (hu.skipped _ hp hks)) fun hr => hk (hrest _ hr)
  ascending ht := by
    obtain ⟨_, _, hu⟩ := ht.underway h.wellFormed h.traced
    exact hu.pairwise_sequence h.wellFormed

/-- Keys with an abandoned traversal behind them, of which one is cleared before it is reached. -/
theorem visits_once_clearing :
    let t₀ := (((({} : Table).putInt 10 (.bool true)).putInt 1 (.bool true)).next .nil).1.putInt 2
      (.bool false)
    let edit := fun (_ : List Key) (t : Table) =>
      if t.get (.int 2) ≠ .nil then t.putInt 2 .nil else t
    t₀.Reachable ∧ t₀.VisitsOnce ∧ (∀ ks t, Tended t (edit ks t)) ∧
      visit edit 4 [] t₀ = some [.int 1, .int 10] := by
  have h := Reachable.putInt 2 (.bool false) (.next .nil (.putInt 1 (.bool true)
    (.putInt 10 (.bool true) .new)))
  refine ⟨h, h.visits_once, fun _ t => ?_, by decide +kernel⟩
  change Tended t (if _ then _ else _)
  by_cases hk : t.get (.int 2) ≠ .nil
  · rw [if_pos hk]
    exact .put .refl hk (put_of_some (Key.isNormal_int 2) .nil)
  · rw [if_neg hk]
    exact .refl

end Table
end LuaMachine
