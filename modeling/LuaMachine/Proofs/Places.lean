import LuaMachine.Proofs.Frame.Values
import LuaMachine.Proofs.Run

namespace LuaMachine

namespace Frame

variable {f g : Frame} {i : Int} {s : Nat}

def Addresses (f : Frame) (i : Int) (s : Nat) : Prop :=
  s < f.top ∧ (i = s + 1 ∨ registryIndex < i ∧ i = (s : Int) - f.top)

/-- The slot that an index reaches if it is resolved again when there is one value less. -/
def stray? (f : Frame) (i : Int) : Option Nat :=
  if registryIndex < i ∧ -(2 * f.top : Int) ≤ i ∧ i ≤ -(f.top : Int) - 2 then
    some (2 * f.top + i).toNat
  else none

theorem place_of_le {i : Int} (h : i ≤ registryIndex) :
    f.place i = if i = registryIndex then .registry else .upvalue (registryIndex - i - 1).toNat := by
  unfold place
  by_cases he : i = registryIndex
  · rw [if_neg (by omega), if_pos he, if_pos he]
  · rw [if_pos (by omega), if_neg he]

theorem place_of_lt {i : Int} (h : registryIndex < i) :
    f.place i = if 0 < f.absolute i ∧ f.absolute i ≤ f.top then .slot ((f.absolute i).toNat - 1)
      else .nowhere := by
  unfold place
  rw [if_neg (by omega), if_neg (by omega)]

theorem absolute_of_le {i : Int} (h : i ≤ registryIndex) : f.absolute i = i := if_pos (.inr h)

theorem absolute_of_nonneg {i : Int} (h : 0 ≤ i) : f.absolute i = i := if_pos (.inl h)

theorem absolute_of_neg {i : Int} (h : registryIndex < i) (hn : i < 0) :
    f.absolute i = f.top + i + 1 := if_neg (by omega)

theorem registryIndex_neg : registryIndex < 0 := by decide

theorem place_eq_slot_iff : f.place i = .slot s ↔ f.Addresses i s := by
  have hr := registryIndex_neg
  unfold Addresses
  rcases Int.lt_or_le registryIndex i with hi | hi
  · rw [place_of_lt hi]
    rcases Int.lt_or_le i 0 with hn | hn
    · rw [absolute_of_neg hi hn]
      split
      · rw [Place.slot.injEq]
        omega
      · refine ⟨nofun, fun h => ?_⟩
        omega
    · rw [absolute_of_nonneg hn]
      split
      · rw [Place.slot.injEq]
        omega
      · refine ⟨nofun, fun h => ?_⟩
        omega
  · rw [place_of_le hi]
    refine ⟨fun h => ?_, fun h => ?_⟩
    · split at h <;> cases h
    · omega

theorem place_upvalueIndex (k : Nat) : f.place (upvalueIndex (k + 1)) = .upvalue k := by
  unfold upvalueIndex
  rw [place_of_le (by omega), if_neg (by omega)]
  congr 1
  omega

theorem Addresses.absolute (h : f.Addresses i s) : f.absolute i = s + 1 := by
  rcases h.2 with rfl | ⟨hi, rfl⟩
  · exact absolute_of_nonneg (by omega)
  · have := h.1
    rw [absolute_of_neg hi (by omega)]
    omega

theorem Addresses.resolved (h : f.Addresses i s) (hg : s < g.top) :
    g.place (f.absolute i) = .slot s := by
  rw [place_eq_slot_iff, h.absolute]
  exact ⟨hg, .inl rfl⟩

/-- An index that addresses nothing is resolved to a slot when it strays. -/
theorem place_resolved (h : f.place i = .nowhere) (hg : g.top = f.top - 1) :
    g.place (f.absolute i) = (f.stray? i).elim .nowhere .slot := by
  have hr := registryIndex_neg
  unfold stray?
  rcases Int.lt_or_le registryIndex i with hi | hi
  · rw [place_of_lt hi] at h
    have hout : ¬(0 < f.absolute i ∧ f.absolute i ≤ f.top) := fun hin => by
      rw [if_pos hin] at h
      cases h
    rcases Int.lt_or_le i 0 with hn | hn
    · rw [absolute_of_neg hi hn] at hout ⊢
      rw [place_of_lt (by omega)]
      rcases Int.lt_or_le (f.top + i + 1) 0 with ha | ha
      · rw [absolute_of_neg (by omega) ha, hg]
        by_cases hs : -(2 * f.top : Int) ≤ i ∧ i ≤ -(f.top : Int) - 2
        · rw [if_pos (by omega), if_pos ⟨hi, hs⟩]
          change Place.slot _ = Place.slot _
          congr 1
          omega
        · rw [if_neg (by omega), if_neg fun h => hs h.2]
          rfl
      · rw [absolute_of_nonneg ha, if_neg (by omega), if_neg (by omega)]
        rfl
    · rw [absolute_of_nonneg hn] at hout ⊢
      rw [place_of_lt hi, absolute_of_nonneg hn, if_neg (by omega), if_neg (by omega)]
      rfl
  · rw [place_of_le hi] at h
    split at h <;> cases h

end Frame

namespace Machine

variable {m : Machine}

structure HasFrame (m : Machine) : Prop where
  there : m.running.index < m.threads.size
  framed : 0 < m.frameCount

theorem HasFrame.frame_modifyTop (h : m.HasFrame) (g : Frame → Frame) :
    (m.modifyTop m.running g).frame = g m.frame :=
  frameAt_modifyTop_there h.there h.framed g

def popped (m : Machine) : Machine := m.modifyTop m.running (·.drop 1)

def deposited (m : Machine) (s : Nat) : Machine :=
  m.popped.modifyTop m.running (·.setSlot s m.frame.peek)

/-- The upvalue, and nothing else, has been assigned to: the variable itself if it is closed, and else the
register that it is an alias of. -/
def assigned (m : Machine) (u : UpvalueId) (v : Value) : Machine :=
  match m.upvalues[u.index]? with
  | some (.opened r) =>
    { m with threads := m.threads.modify r.thread.index fun th =>
        { th with frames := modifyFrames r.level (·.setSlot r.slot v) th.frames } }
  | some (.closed _) => { m with upvalues := m.upvalues.setIfInBounds u.index (.closed v) }
  | none => m

theorem HasFrame.frame_popped (h : m.HasFrame) : m.popped.frame = m.frame.drop 1 := h.frame_modifyTop _

theorem HasFrame.ownUpvalue?_popped (h : m.HasFrame) (k : Nat) :
    m.popped.ownUpvalue? k = m.ownUpvalue? k := by
  unfold ownUpvalue? functionOf
  rw [h.frame_popped]
  rfl

theorem not_isValid {i : Int} (h : m.isValid i = false) :
    m.frame.place i = .nowhere ∨ ∃ k, i < registryIndex ∧ m.frame.place i = .upvalue k ∧
      m.ownUpvalue? k = none := by
  have hr : ∀ k, m.frame.place i = .upvalue k → i < registryIndex := fun k hk => by
    rcases Int.lt_trichotomy i registryIndex with hi | hi | hi
    · exact hi
    · rw [Frame.place_of_le (Int.le_of_eq hi), if_pos hi] at hk
      cases hk
    · rw [Frame.place_of_lt hi] at hk
      split at hk <;> cases hk
  unfold isValid at h
  split at h
  · cases h
  · cases h
  · next k hk => exact .inr ⟨k, hr k hk, hk, by simpa using h⟩
  · next hk => exact .inl hk

end Machine

namespace Exec

variable {m : Machine} {i : Int} {s k : Nat} {u : UpvalueId} {v : Value}

theorem storeAt_slot (h : m.frame.place i = .slot s) (v : Value) :
    storeAt i v m = .done () (m.modifyTop m.running (·.setSlot s v)) := by
  simp only [storeAt, run_bind, run_readFrame, Outcome.andThen_done, h, run_modifyFrame]

theorem storeAt_nowhere (h : m.frame.place i = .nowhere) (v : Value) :
    storeAt i v m = .done () m := by
  simp only [storeAt, run_bind, run_readFrame, Outcome.andThen_done, h, run_pure]

theorem storeAt_noUpvalue (h : m.frame.place i = .upvalue k) (hu : m.ownUpvalue? k = none)
    (v : Value) : storeAt i v m = .done () m := by
  simp only [storeAt, run_bind, run_readFrame, Outcome.andThen_done, h, run_read, hu, run_pure]

theorem run_writeUpvalue (u : UpvalueId) (v : Value) (m : Machine) :
    writeUpvalue u v m = .done () (m.assigned u v) := by
  unfold writeUpvalue Machine.assigned
  rw [run_bind, run_read, Outcome.andThen_done]
  cases m.upvalues[u.index]? with
  | none => rfl
  | some w => cases w <;> rfl

theorem storeAt_upvalue (h : m.frame.place i = .upvalue k) (hu : m.ownUpvalue? k = some u)
    (v : Value) : storeAt i v m = .done () (m.assigned u v) := by
  simp only [storeAt, run_bind, run_readFrame, Outcome.andThen_done, h, run_read, hu,
    run_writeUpvalue]

/-- A replacement stores what it has popped at the index that it has resolved before. -/
theorem run_replace_eq (i : Int) (m : Machine) :
    replace i m = storeAt (m.frame.absolute i) m.frame.peek m.popped := by
  simp only [replace, absIndex, run_bind, run_readFrame, Outcome.andThen_done, run_pop]
  rfl

theorem storeAt_not_isValid (h : m.isValid i = false) (v : Value) : storeAt i v m = .done () m := by
  rcases Machine.not_isValid h with hp | ⟨k, -, hp, hu⟩
  · exact storeAt_nowhere hp v
  · exact storeAt_noUpvalue hp hu v

theorem copy_not_isValid (h : m.isValid i = false) (source : Int) : copy source i m = .done () m := by
  obtain ⟨v, hv⟩ := run_valueAt source m
  rw [copy, run_bind, hv, Outcome.andThen_done, storeAt_not_isValid h]

theorem replace_slot (hm : m.HasFrame) (h : m.frame.Addresses i s) (hs : s + 1 < m.frame.top) :
    replace i m = .done () (m.deposited s) := by
  have ht : s < m.popped.frame.top := by
    rw [hm.frame_popped]
    exact Nat.lt_sub_of_add_lt hs
  rw [run_replace_eq, storeAt_slot (h.resolved ht)]
  rfl

theorem replace_upvalue (hm : m.HasFrame) (hu : m.ownUpvalue? k = some u) :
    replace (upvalueIndex (k + 1)) m = .done () (m.popped.assigned u m.frame.peek) := by
  have hi : upvalueIndex (k + 1) ≤ registryIndex := by
    unfold upvalueIndex
    omega
  rw [run_replace_eq, Frame.absolute_of_le hi]
  exact storeAt_upvalue (Frame.place_upvalueIndex k) (hm.ownUpvalue?_popped k ▸ hu) _

theorem replace_not_isValid (hm : m.HasFrame) (h : m.isValid i = false) :
    replace i m = .done () ((m.frame.stray? i).elim m.popped m.deposited) := by
  rw [run_replace_eq]
  rcases Machine.not_isValid h with hp | ⟨k, hi, hp, hu⟩
  · have ht : m.popped.frame.top = m.frame.top - 1 := by
      rw [hm.frame_popped]
      rfl
    have hplace := Frame.place_resolved hp ht
    cases hs : m.frame.stray? i with
    | none => exact storeAt_nowhere (by rw [hplace, hs]; rfl) _
    | some s => exact storeAt_slot (by rw [hplace, hs]; rfl) _
  · have hs : m.frame.stray? i = none := if_neg fun h => absurd h.1 (by omega)
    rw [hs, Frame.absolute_of_le (Int.le_of_lt hi)]
    refine storeAt_noUpvalue (k := k) ?_ (hm.ownUpvalue?_popped k ▸ hu) _
    rw [← hp, Frame.place_of_le (Int.le_of_lt hi), Frame.place_of_le (Int.le_of_lt hi)]

/-- What writing through an index does. Where the index is not valid, a copy does nothing, and a
replacement pops the value and is done with it, unless the index strays to a slot. -/
structure WritesThrough (m : Machine) (i : Int) : Prop where
  copies : m.isValid i = false → ∀ source, copy source i m = .done () m
  pops : m.isValid i = false → m.frame.stray? i = none → replace i m = .done () m.popped
  strays : m.isValid i = false → ∀ s, m.frame.stray? i = some s →
    replace i m = .done () (m.deposited s)
  stores : ∀ s, m.frame.Addresses i s → s + 1 < m.frame.top → replace i m = .done () (m.deposited s)
  assigns : ∀ (k : Nat) u, i = upvalueIndex (k + 1) → m.ownUpvalue? k = some u →
    replace i m = .done () (m.popped.assigned u m.frame.peek)

/-- What is written through an index gets to the place of the index and nowhere else, but for the
indices that stray. -/
theorem writesThrough (hm : m.HasFrame) (i : Int) : WritesThrough m i where
  copies h source := copy_not_isValid h source
  pops h hs := by
    rw [replace_not_isValid hm h, hs]
    rfl
  strays h s hs := by
    rw [replace_not_isValid hm h, hs]
    rfl
  stores s h hs := replace_slot hm h hs
  assigns k u hi hu := hi ▸ replace_upvalue hm hu

end Exec

def Machine.coupled : Machine :=
  { Machine.new {} with
    threads := #[{ isMain := true, parked := false, phase := .running,
                   frames := #[{ window := #[.int 1, .int 2], top := 2 }] }] }

theorem Machine.hasFrame_coupled : Machine.coupled.HasFrame := ⟨by decide, by decide⟩

/-- The least index of all is not valid and pops the value, while -2 is that of the lower one. -/
theorem Exec.writesThrough_coupled :
    Machine.coupled.HasFrame ∧ replace (-2147483648) Machine.coupled = .done () Machine.coupled.popped ∧
    replace (-2) Machine.coupled = .done () (Machine.coupled.deposited 0) :=
  ⟨Machine.hasFrame_coupled,
    (Exec.writesThrough Machine.hasFrame_coupled (-2147483648)).pops (by decide) (by decide),
    (Exec.writesThrough Machine.hasFrame_coupled (-2)).stores 0 ⟨by decide, .inr (by decide)⟩ (by decide)⟩

/-- The index -4 is not valid where there are two values. Replacing at it leaves the upper value in the
place of the lower one. -/
theorem Machine.coupled_overwritten : Machine.coupled.isValid (-4) = false ∧
    ∃ m, Exec.replace (-4) Machine.coupled = .done () m ∧ m.frame.values = [.int 2] ∧
      Machine.coupled.popped.frame.values = [.int 1] :=
  ⟨by decide, _, rfl, by decide, by decide⟩

end LuaMachine
