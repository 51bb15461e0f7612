import LuaMachine.Proofs.Table.Order

/-!
Which keys a step of a traversal takes. All traversals of a table share one order, which is fixed at
the first step of any, and anew when one starts after keys have come or gone. A key of the order is
taken whether or not it still has a value.
-/

namespace LuaMachine

namespace Table

variable {t t' : Table} {k : Key} {ks : List Key}

def Takes (t : Table) (k : Key) : Prop := ∀ v, Key.ofValue? v = some k → (t.next v).2 ≠ .unknown

/-- Assignments and steps of traversals, any of them, where a traversal that starts after a change
finds the key with a value. -/
inductive Retaining (k : Key) (t : Table) : Table → Prop where
  | refl : Retaining k t t
  | put {t' t'' : Table} {l v : Value} : Retaining k t t' → t'.put l v = .ok t'' → Retaining k t t''
  | next {t' : Table} {l : Value} : Retaining k t t' →
      (l = .nil → t'.changed = true → t'.getKey k ≠ .nil) → Retaining k t (t'.next l).1

theorem Retaining.putInt (h : Retaining k t t') (i : Int64) (v : Value) :
    Retaining k t (t'.putInt i v) := h.put (put_of_some (Key.isNormal_int i) v)

def Tracks (t : Table) (k : Key) : Prop := ∃ ks, t.order = some ks ∧ k ∈ ks

theorem Tracks.takes (h : t.Tracks k) : t.Takes k := by
  obtain ⟨ks, ho, hk⟩ := h
  intro v hv hu
  rw [next_key hv ho] at hu
  cases ha : after? k ks with
  | none => exact after?_eq_none.mp ha hk
  | some rest => exact firstAlive_ne_unknown (by simpa [ha] using hu)

theorem WellFormed.tracks_restarted (h : t.WellFormed) (hk : t.getKey k ≠ .nil) :
    t.restarted.Tracks k := ⟨_, rfl, h.mem_keys.mpr hk⟩

theorem tracks_next_of_getKey (h : t.WellFormed) (ht : t.Traced) {v : Value}
    (hv : v = .nil ∨ t.order = none) (hk : t.getKey k ≠ .nil) : (t.next v).1.Tracks k := by
  have hr : t.refresh v.isNil = t.restarted := by
    rcases hv with rfl | ho
    · exact ht.refresh_start
    · exact refresh_none ho _
  rw [next_fst, hr]
  exact h.tracks_restarted hk

theorem mem_of_after? {j : Key} {rest : List Key} (h : after? j ks = some rest) (hk : k ∈ rest) :
    k ∈ ks := by
  induction ks with
  | nil => cases h
  | cons i ks ih =>
    rw [after?] at h
    split at h
    · cases h
      exact List.mem_cons_of_mem _ hk
    · exact List.mem_cons_of_mem _ (ih h)

theorem next_restarted (ho : t.order = none) (v : Value) : t.next v = t.restarted.next v := by
  have hr : t.restarted.refresh v.isNil = t.restarted := if_neg (by simp [restarted])
  rw [next, next, refresh_none ho, hr]

theorem order_refresh (t : Table) (s : Bool) : ∃ ks, (t.refresh s).order = some ks := by
  cases ho : t.order with
  | none => exact ⟨_, congrArg order (refresh_none ho s)⟩
  | some ks =>
    rw [refresh]
    split
    · exact ⟨_, rfl⟩
    · exact ⟨ks, ho⟩

theorem mem_of_firstAlive (h : t.firstAlive ks = .key k) : k ∈ ks := by
  obtain ⟨p, r, rfl, -⟩ := firstAlive_eq_key.mp h
  exact List.mem_append_right p List.mem_cons_self

theorem tracks_of_next {v : Value} (hn : t.next v = (t', .key k)) : t'.Tracks k := by
  obtain ⟨ks, ho⟩ := order_refresh t v.isNil
  have hfst : t.refresh v.isNil = t' := next_fst t v ▸ congrArg Prod.fst hn
  have hsnd : (t.next v).2 = .key k := congrArg Prod.snd hn
  refine ⟨ks, hfst ▸ ho, ?_⟩
  rw [next, ho, Option.getD_some] at hsnd
  split at hsnd
  · exact mem_of_firstAlive hsnd
  · split at hsnd
    · rename_i rest hr
      obtain ⟨j, -, ha⟩ := Option.bind_eq_some_iff.mp hr
      exact mem_of_after? ha (mem_of_firstAlive hsnd)
    · cases hsnd

theorem Tracks.putKey (h : t.Tracks k) (l : Key) (v : Value) : (t.putKey l v).Tracks k := by
  obtain ⟨ks, ho, hk⟩ := h
  exact ⟨ks, order_putKey t l v ▸ ho, hk⟩

theorem Tracks.next (h : t.Tracks k) (hw : t.WellFormed) {l : Value}
    (hl : l = .nil → t.changed = true → t.getKey k ≠ .nil) : (t.next l).1.Tracks k := by
  obtain ⟨ks, ho, hk⟩ := h
  rw [next_fst, refresh, ho]
  split
  · rename_i hc
    have hc : l.isNil = true ∧ t.changed = true := by simpa using hc
    exact hw.tracks_restarted (hl (isNil_eq_true.mp hc.1) hc.2)
  · exact ⟨ks, ho, hk⟩

theorem Tracks.retaining (h : t.Tracks k) (hw : t.WellFormed) (hr : Retaining k t t') :
    t'.Tracks k := by
  have hw' : t'.WellFormed ∧ t'.Tracks k := by
    induction hr with
    | refl => exact ⟨hw, h⟩
    | put _ hp ih =>
      obtain ⟨j, hj, rfl⟩ := put_eq_ok_iff.mp hp
      exact ⟨wellFormed_putKey ih.1 (Key.isNormal_of_ofValue? hj) _, ih.2.putKey j _⟩
    | next _ hl ih => exact ⟨ih.1.congr (next_eq _ _), ih.2.next ih.1 hl⟩
  exact hw'.2

/-- Which keys are never refused, whatever is assigned and whatever traversals take steps. -/
structure TakesKeys (t : Table) : Prop where
  /-- Those with a value, as long as no key has come or gone since the order was fixed. -/
  current : ∀ {k}, t.order = none ∨ t.changed = false → t.getKey k ≠ .nil → t.Takes k
  /-- Those with a value at the start of a traversal, or at the first step of any. -/
  present : ∀ {k v t'}, v = .nil ∨ t.order = none → t.getKey k ≠ .nil →
    Retaining k (t.next v).1 t' → t'.Takes k
  /-- Those that a step has returned. -/
  returned : ∀ {k v t' t''}, t.next v = (t', .key k) → Retaining k t' t'' → t''.Takes k

/-- A key is taken that had a value when the order was fixed, or that has been returned, unless a
traversal that starts after a change finds it without a value. -/
theorem Reachable.takes_keys (h : t.Reachable) : t.TakesKeys where
  current {k} hc hk := by
    cases ho : t.order with
    | none =>
      intro v hv
      rw [next_restarted ho]
      exact (h.wellFormed.tracks_restarted hk).takes v hv
    | some ks =>
      have hks := h.traced.current ks ho (hc.resolve_left (by simp [ho]))
      exact Tracks.takes ⟨ks, ho, hks ▸ h.wellFormed.mem_keys.mpr hk⟩
  present hv hk hr := by
    have ht := tracks_next_of_getKey h.wellFormed h.traced hv hk
    exact (ht.retaining (h.wellFormed.congr (next_eq _ _)) hr).takes
  returned {_ v _ _} hn hr := by
    have hw := h.wellFormed.congr (next_eq _ v)
    rw [hn] at hw
    exact ((tracks_of_next hn).retaining hw hr).takes

/-- A key that has been returned and cleared, while another traversal starts before any change. -/
theorem takes_keys_cleared :
    let t := ((({} : Table).putInt 1 (.bool true)).putInt 2 (.bool true))
    let t' := (((t.next .nil).1.next .nil).1.putInt 1 .nil).putInt 2 .nil
    t.Reachable ∧ (t.next .nil).2 = .key (.int 1) ∧ t'.getKey (.int 1) = .nil ∧
      t'.Takes (.int 1) := by
  intro t t'
  have h : t.Reachable := .putInt 2 _ (.putInt 1 _ .new)
  have hk : t.next .nil = ((t.next .nil).1, .key (.int 1)) := Prod.ext rfl (by decide)
  have hr : Retaining (.int 1) (t.next .nil).1 t' :=
    ((Retaining.refl.next fun _ hc => absurd hc (by decide)).putInt 1 .nil).putInt 2 .nil
  exact ⟨h, congrArg Prod.snd hk, by decide +kernel, h.takes_keys.returned hk hr⟩

/-- A key that comes after the order was fixed is refused as long as no traversal starts, and one
that has been returned is once a traversal has started after it was cleared. -/
theorem refuses_late_and_cleared :
    let t := ({} : Table).putInt 1 (.bool true)
    let late := (t.next .nil).1.putInt 2 (.bool true)
    let both := t.putInt 2 (.bool true)
    let cleared := (((both.next .nil).1.putInt 1 .nil).next .nil).1
    (late.getKey (.int 2) = .bool true ∧ ¬late.Takes (.int 2)) ∧
      (both.next .nil).2 = .key (.int 1) ∧ ¬cleared.Takes (.int 1) :=
  ⟨⟨by decide, fun h => h (.int 2) rfl (by decide)⟩, by decide,
    fun h => h (.int 1) rfl (by decide +kernel)⟩

end Table
end LuaMachine
