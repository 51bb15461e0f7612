import LuaMachine.Frame

namespace LuaMachine.Frame

def Clear (f : Frame) : Prop := ∀ i, f.top ≤ i → f.slot i = .nil

variable {f : Frame}

theorem slot_reverse_above (f : Frame) {first last i : Nat} (hi : last < i) :
    (f.reverse first last).slot i = f.slot i := by
  unfold reverse
  split
  · rw [slot, Window.read_writeAll]
    split
    · rw [List.getElem?_eq_none (by rw [List.length_reverse, Window.length_slice]; omega)]
      rfl
    · rfl
  · rfl

theorem slot_rotate_above (f : Frame) (n : Int) {start i : Nat} (hi : f.top ≤ i) :
    (f.rotate start n).slot i = f.slot i := by
  unfold rotate
  split
  · dsimp only
    split
    · rfl
    · next hs hk =>
      have hlt := Int.tmod_lt_of_pos n (Int.natCast_pos.mpr (Nat.sub_pos_of_lt hs))
      have hgt := Int.lt_tmod_of_pos n (Int.natCast_pos.mpr (Nat.sub_pos_of_lt hs))
      rw [slot_reverse_above _ (by omega), slot_reverse_above _ (by omega),
        slot_reverse_above _ (by split <;> omega)]
  · rfl

theorem top_rotate (f : Frame) (n : Int) (start : Nat) : (f.rotate start n).top = f.top := by
  obtain ⟨w, h⟩ := f.exists_rotate_eq start n
  rw [h]

namespace Clear

theorem push (h : f.Clear) (v : Value) : (f.push v).Clear := fun i hi => by
  have hi : f.top + 1 ≤ i := hi
  rw [slot, Frame.push, Window.read_write, if_neg (by omega)]
  exact h i (by omega)

theorem pushAll (h : f.Clear) (vs : List Value) : (f.pushAll vs).Clear := fun i hi => by
  have hi : f.top + vs.length ≤ i := hi
  rw [slot, Frame.pushAll, Window.read_writeAll, if_pos (by omega),
    List.getElem?_eq_none (by omega), Option.getD_none]
  exact h i (by omega)

theorem slot_setTop (h : f.Clear) (n : Nat) {i : Nat} (hi : f.top ≤ i) :
    (f.setTop n).slot i = .nil := by
  rw [slot, Frame.setTop, Window.read_clear]
  split
  · rfl
  · exact h i hi

theorem values_setTop (h : f.Clear) {n : Nat} (hn : f.top ≤ n) :
    (f.setTop n).values = f.values ++ List.replicate (n - f.top) .nil := by
  apply List.ext_getElem?
  intro i
  rw [getElem?_values, List.getElem?_append, getElem?_values, length_values, List.getElem?_replicate]
  change (if i < n then _ else _) = _
  by_cases hi : i < f.top
  · have hs : (f.setTop n).slot i = f.slot i := by
      rw [slot, Frame.setTop, Window.read_clear, if_neg (by omega), slot]
    rw [if_pos hi, if_pos hi, if_pos (by omega), hs]
  · rw [if_neg hi, h.slot_setTop n (by omega)]
    simp only [show i - f.top < n - f.top ↔ i < n by omega]

theorem setTop (h : f.Clear) (n : Nat) : (f.setTop n).Clear := fun i hi => by
  have hi : n ≤ i := hi
  rcases Nat.lt_or_ge i f.top with ht | ht
  · rw [slot, Frame.setTop, Window.read_clear, if_pos (by omega)]
  · exact h.slot_setTop n ht

theorem drop (h : f.Clear) (n : Nat) : (f.drop n).Clear := h.setTop _

theorem setSlot (h : f.Clear) {i : Nat} (hi : i < f.top) (v : Value) : (f.setSlot i v).Clear :=
  fun j hj => by
    have hj : f.top ≤ j := hj
    rw [slot, Frame.setSlot, Window.read_write, if_neg (by omega)]
    exact h j hj

theorem rotate (h : f.Clear) (start : Nat) (n : Int) : (f.rotate start n).Clear := fun i hi => by
  rw [top_rotate] at hi
  rw [slot_rotate_above f n hi]
  exact h i hi

end Clear

theorem clear_of_window (h : f.window.size ≤ f.top) : f.Clear := fun i hi => by
  rw [slot, Window.read, Array.getD_eq_getD_getElem?, Array.getElem?_eq_none (by omega)]
  rfl

end LuaMachine.Frame
