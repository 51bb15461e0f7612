import LuaMachine.Proofs.Places
import LuaMachine.Proofs.Stack

namespace LuaMachine

namespace Machine

variable {m m' m'' : Machine}

/-- Nothing differs, except for how many slots that hold nil are written down. -/
structure Same (m m' : Machine) : Prop where
  window : ∃ w, m' = m.modifyTop m.running fun f => { f with window := w }
  slots : ∀ j, m'.frame.slot j = m.frame.slot j

def cycled (m : Machine) (start : Nat) (n : Int) : Machine :=
  m.modifyTop m.running (·.rotate start n)

theorem HasFrame.cycled (h : m.HasFrame) (start : Nat) (n : Int) : (m.cycled start n).HasFrame where
  there := by
    change m.running.index < (m.threads.modify _ _).size
    rw [Array.size_modify]
    exact h.there
  framed := by
    change 0 < (m.modifyTop m.running _).frameCount
    rw [show (m.modifyTop m.running _).frameCount = m.frameCount from
      m.size_modifyTop m.running m.running _]
    exact h.framed

theorem HasFrame.frame_cycled (h : m.HasFrame) (start : Nat) (n : Int) :
    (m.cycled start n).frame = m.frame.rotate start n := h.frame_modifyTop _

theorem restacked_cycled (m : Machine) (start : Nat) (n : Int) : m.Restacked (m.cycled start n) :=
  Restacked.modifyTop m _

theorem HasFrame.same (h : m.HasFrame) {w : Window}
    (hv : ({ m.frame with window := w } : Frame).values = m.frame.values)
    (ha : ∀ j, m.frame.top ≤ j → w.read j = m.frame.slot j) :
    m.Same (m.modifyTop m.running fun f => { f with window := w }) where
  window := ⟨w, rfl⟩
  slots j := by
    rw [h.frame_modifyTop]
    rcases Nat.lt_or_ge j m.frame.top with hj | hj
    · have hj' : j < ({ m.frame with window := w } : Frame).top := hj
      exact (Frame.slot_eq _ hj').trans (hv ▸ (m.frame.slot_eq hj).symm)
    · exact ha j hj

theorem cycled_cycled_eq (m : Machine) (start : Nat) (n p : Int) :
    (m.cycled start n).cycled start p =
      m.modifyTop m.running fun f => (f.rotate start n).rotate start p :=
  m.modifyTop_modifyTop m.running (·.rotate start n) (·.rotate start p)

theorem HasFrame.same_cycled (h : m.HasFrame) (start : Nat) (n p : Int) :
    (m.cycled start (n + p)).Same ((m.cycled start n).cycled start p) := by
  obtain ⟨w, hw⟩ := m.frame.exists_rotate_eq start (n + p)
  obtain ⟨w₁, hw₁⟩ := m.frame.exists_rotate_eq start n
  obtain ⟨w₂, hw₂⟩ := (m.frame.rotate start n).exists_rotate_eq start p
  have hf := h.frame_cycled start (n + p)
  have hboth : (m.frame.rotate start n).rotate start p = { m.frame with window := w₂ } := by
    rw [hw₂, hw₁]
  have he : (m.cycled start n).cycled start p =
      (m.cycled start (n + p)).modifyTop m.running fun f => { f with window := w₂ } := by
    rw [cycled_cycled_eq, Machine.cycled, modifyTop_modifyTop]
    refine modifyTop_congr ?_
    change (m.frame.rotate start n).rotate start p = { m.frame.rotate start (n + p) with window := w₂ }
    rw [hboth, hw]
  rw [he]
  refine (h.cycled start (n + p)).same ?_ fun j hj => ?_
  · rw [hf, ← m.frame.values_rotate_rotate n start p, hboth, hw]
  · rw [hf, m.frame.top_rotate] at hj
    have hs : w₂.read j = ((m.frame.rotate start n).rotate start p).slot j := by rw [hboth, Frame.slot]
    rw [hs, hf, m.frame.slot_rotate_above _ hj,
      Frame.slot_rotate_above _ _ (by rwa [m.frame.top_rotate]), m.frame.slot_rotate_above _ hj]

theorem cycled_zero (m : Machine) (start : Nat) : m.cycled start 0 = m := by
  have hz : ∀ f : Frame, f.rotate start 0 = f := fun f => by
    unfold Frame.rotate
    split
    · exact if_pos (Int.zero_tmod _)
    · rfl
  simp only [cycled, hz]
  exact m.modifyTop_id m.running

end Machine

namespace Exec

variable {m : Machine} {i : Int} {s : Nat}

theorem run_rotate (h : m.frame.Addresses i s) (n : Int) :
    rotate i n m = .done () (m.cycled s n) := by
  have ha : m.frame.absolute i = s + 1 := h.absolute
  rw [rotate, absIndex, run_bind, run_readFrame, Outcome.andThen_done, ha, if_pos (by omega)]
  rw [run_modifyFrame, show ((s + 1 : Int).toNat - 1) = s by omega]
  rfl

structure Rotates (m : Machine) (i : Int) (s : Nat) : Prop where
  /-- Each value goes `n` places towards the top, and starts again from the slot past the top. -/
  turn : ∀ n, ∃ m', rotate i n m = .done () m' ∧ m.Restacked m' ∧ m'.frame.top = m.frame.top ∧
    (∀ j, j < s ∨ m.frame.top ≤ j → m'.frame.slot j = m.frame.slot j) ∧
    ∀ j, s + j < m.frame.top →
      m'.frame.slot (s + ((j + n) % (m.frame.top - s : Nat)).toNat) = m.frame.slot (s + j)
  add : ∀ n p, ∃ m₁ m₂, rotate i (n + p) m = .done () m₁ ∧
    (do rotate i n; rotate i p) m = .done () m₂ ∧ m₁.Same m₂
  undo : ∀ n, ∃ m', (do rotate i n; rotate i (-n)) m = .done () m' ∧ m.Same m'
  insert : ∃ m', insert i m = .done () m' ∧ m.Restacked m' ∧ m'.frame.values =
    m.frame.values.take s ++ m.frame.peek :: (m.frame.values.drop s).dropLast
  remove : ∃ m', remove i m = .done () m' ∧ m.Restacked m' ∧
    m'.frame.values = m.frame.values.eraseIdx s

theorem run_rotate_rotate (hm : m.HasFrame) (h : m.frame.Addresses i s) (n p : Int) :
    (do rotate i n; rotate i p) m = .done () ((m.cycled s n).cycled s p) := by
  have h' : (m.cycled s n).frame.Addresses i s := by
    unfold Frame.Addresses
    rw [hm.frame_cycled, m.frame.top_rotate]
    exact h
  rw [run_bind, run_rotate h, Outcome.andThen_done, run_rotate h']

theorem values_inserted {f : Frame} (hs : s < f.top) : (f.rotate s 1).values =
    f.values.take s ++ f.peek :: (f.values.drop s).dropLast := by
  have hz : (f.values.take s).length = s := by
    rw [List.length_take, f.length_values]
    omega
  obtain ⟨xs, v, hd⟩ : ∃ xs v, f.values.drop s = xs ++ [v] :=
    have hne : f.values.drop s ≠ [] := List.ne_nil_of_length_pos (by
      rw [List.length_drop, f.length_values]
      omega)
    ⟨_, _, (List.dropLast_append_getLast hne).symm⟩
  have hv : f.values = f.values.take s ++ xs ++ [v] := by
    rw [List.append_assoc, ← hd, List.take_append_drop]
  have hp : f.peek = v := by
    rw [f.peek_eq, hv, List.getLast?_concat]
    rfl
  have hr := f.values_rotate hv
  rw [hz] at hr
  rw [hd, List.dropLast_concat, hp, ← List.singleton_append, ← List.append_assoc]
  exact hr

theorem values_removed {f : Frame} (hs : s < f.top) :
    ((f.rotate s (-1)).drop 1).values = f.values.eraseIdx s := by
  have hl : s < f.values.length := by rwa [f.length_values]
  have hz : (f.values.take s).length = s := by
    rw [List.length_take]
    omega
  have hv : f.values = f.values.take s ++ [f.values[s]] ++ f.values.drop (s + 1) := by
    rw [List.append_assoc, List.singleton_append, List.getElem_cons_drop, List.take_append_drop]
  have hr := f.values_rotate_neg hv
  rw [hz] at hr
  have ht : f.top - 1 = (f.values.take s ++ f.values.drop (s + 1)).length := by
    rw [List.length_append, hz, List.length_drop, f.length_values]
    omega
  change ((f.rotate s (-([f.values[s]].length : Int))).drop 1).values = f.values.eraseIdx s
  rw [Frame.values_drop, Frame.top_rotate, hr, ht, List.take_left, List.eraseIdx_eq_take_drop_succ]

/-- Turning the values from an index on is a cyclic shift of them. -/
theorem rotates (hm : m.HasFrame) (h : m.frame.Addresses i s) : Rotates m i s where
  turn n := by
    refine ⟨_, run_rotate h n, m.restacked_cycled s n, ?_⟩
    rw [hm.frame_cycled]
    refine ⟨m.frame.top_rotate n s, fun j hj => ?_, fun j hj => m.frame.slot_rotate n hj⟩
    rcases hj with hj | hj
    · exact m.frame.slot_rotate_below n hj
    · exact m.frame.slot_rotate_above n hj
  add n p := ⟨_, _, run_rotate h _, run_rotate_rotate hm h n p, hm.same_cycled s n p⟩
  undo n := by
    have hs := hm.same_cycled s n (-n)
    rw [Int.add_right_neg, m.cycled_zero] at hs
    exact ⟨_, run_rotate_rotate hm h n (-n), hs⟩
  insert := by
    refine ⟨_, run_rotate h 1, m.restacked_cycled s 1, ?_⟩
    rw [hm.frame_cycled]
    exact values_inserted h.1
  remove := by
    have hr : remove i m = .done () ((m.cycled s (-1)).modifyTop m.running (·.drop 1)) := by
      rw [remove, run_bind, run_rotate h, Outcome.andThen_done]
      rfl
    refine ⟨_, hr, (m.restacked_cycled s (-1)).trans (Machine.Restacked.modifyTop _ _), ?_⟩
    rw [show ((m.cycled s (-1)).modifyTop m.running (·.drop 1)).frame = _ from
      (hm.cycled s (-1)).frame_modifyTop _, hm.frame_cycled]
    exact values_removed h.1

/-- Three values, the lowest of which stays below a turn from the index -2. -/
theorem rotates_three :
    let m := (Machine.new {}).modifyTop Machine.mainThread (·.pushAll [.int 1, .int 2, .int 3])
    m.HasFrame ∧ m.frame.Addresses (-2) 1 ∧ ∃ m', rotate (-2) (-5) m = .done () m' ∧
      m'.frame.slot 0 = .int 1 ∧ m'.frame.slot 1 = .int 3 ∧ m'.frame.slot 2 = .int 2 := by
  intro m
  have hm : m.HasFrame := ⟨by decide, by decide⟩
  have ha : m.frame.Addresses (-2) 1 := ⟨by decide, .inr (by decide)⟩
  have ht : m.frame.top = 3 := by decide
  obtain ⟨m', hr, -, -, hbelow, hslot⟩ := (rotates hm ha).turn (-5)
  rw [ht] at hslot
  exact ⟨hm, ha, m', hr, hbelow 0 (.inl (by decide)), hslot 1 (by decide), hslot 0 (by decide)⟩

end Exec
end LuaMachine
