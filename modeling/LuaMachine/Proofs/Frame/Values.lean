import LuaMachine.Exec.Stack
import LuaMachine.Proofs.Frame.Cut

namespace LuaMachine.Frame

variable (f : Frame)

theorem values_push (v : Value) : (f.push v).values = f.values ++ [v] := values_pushAll f [v]

theorem values_drop (n : Nat) : (f.drop n).values = f.values.take (f.top - n) :=
  values_setTop f (f.top - n) (Nat.sub_le ..)

theorem topValues_eq (n : Nat) : f.topValues n = f.values.drop (f.top - n) := by
  apply List.ext_getElem?
  intro i
  rw [topValues, Window.getElem?_slice, List.getElem?_drop, getElem?_values]
  by_cases h : i < min n f.top
  · rw [if_pos h, if_pos (by omega), slot, show f.top - min n f.top = f.top - n by omega]
  · rw [if_neg h, if_neg (by omega)]

theorem slice_eq {i k : Nat} (h : i + k ≤ f.top) :
    f.window.slice i k = (f.values.drop i).take k := by
  apply List.ext_getElem?
  intro j
  rw [Window.getElem?_slice, List.getElem?_take, List.getElem?_drop, getElem?_values]
  by_cases hj : j < k
  · rw [if_pos hj, if_pos hj, if_pos (by omega)]
    rfl
  · rw [if_neg hj, if_neg hj]

theorem topValues_all : f.topValues f.top = f.values := by
  rw [topValues_eq, Nat.sub_self, List.drop_zero]

theorem length_topValues {n : Nat} (h : n ≤ f.top) : (f.topValues n).length = n := by
  rw [topValues_eq, List.length_drop, length_values, Nat.sub_sub_self h]

theorem peek_eq : f.peek = f.values.getLast?.getD .nil := by
  rw [List.getLast?_eq_getElem?, length_values, getElem?_values, peek]
  by_cases h : f.top = 0
  · simp [h]
  · rw [if_neg h, if_pos (by omega)]
    rfl

theorem slot_eq {i : Nat} (h : i < f.top) : f.slot i = f.values[i]?.getD .nil := by
  rw [getElem?_values, if_pos h]
  rfl

theorem slot_pushAll (vs : List Value) {s : Nat} (hs : s < f.top) :
    (f.pushAll vs).slot s = f.slot s := by
  have hv : (f.pushAll vs).values[s]? = f.values[s]? := by
    rw [values_pushAll, List.getElem?_append_left (f.length_values ▸ hs)]
  have ht : s < (f.pushAll vs).top := Nat.lt_of_lt_of_le hs (Nat.le_add_right ..)
  rw [getElem?_values, getElem?_values, if_pos ht, if_pos hs] at hv
  exact Option.some.inj hv

theorem slot_setTop {n s : Nat} (hs : s < n) : (f.setTop n).slot s = f.slot s := by
  rw [setTop, slot, Window.read_clear, if_neg (by omega)]
  rfl

theorem peek_pushAll (v : Value) : (f.pushAll [v]).peek = v := by
  rw [peek_eq, values_pushAll, List.getLast?_concat]
  rfl

theorem values_setSlot (i : Nat) (v : Value) : (f.setSlot i v).values = f.values.set i v := by
  apply List.ext_getElem?
  intro j
  rw [getElem?_values, List.getElem?_set, getElem?_values, length_values]
  simp only [setSlot, slot, Window.read_write]
  by_cases h : j < f.top
  · by_cases hi : i = j <;> simp [h, hi]
  · by_cases hi : i = j <;> simp [h, hi]

theorem values_writeAll {s : Nat} {vs : List Value} (h : s + vs.length ≤ f.top) :
    ({ f with window := f.window.writeAll s vs } : Frame).values =
      f.values.take s ++ vs ++ f.values.drop (s + vs.length) := by
  have hl := f.length_values
  have hs : (f.values.take s).length = s := by
    rw [List.length_take]
    omega
  apply List.ext_getElem?
  intro i
  rw [getElem?_values, List.append_assoc, List.getElem?_append, hs, List.getElem?_append,
    List.getElem?_take, List.getElem?_drop, getElem?_values]
  simp only [slot, Window.read_writeAll]
  by_cases hi : i < s
  · have ht : i < f.top := by omega
    simp [hi, ht, Nat.not_le.mpr hi]
  · have hi' := Nat.le_of_not_lt hi
    by_cases hv : i - s < vs.length
    · have ht : i < f.top := by omega
      simp [hi, hi', ht, hv]
    · have he : s + vs.length + (i - s - vs.length) = i := by omega
      simp [hi, hi', hv, he, getElem?_values, slot]

theorem Kept.getElem?_values {aliased : Nat → Prop} {f g : Frame} (h : f.Kept aliased g) {s : Nat}
    (hs : ¬aliased s) : g.values[s]? = f.values[s]? := by
  rw [Frame.getElem?_values, Frame.getElem?_values, h.top_eq]
  split
  · next hl => rw [h.2 s hl hs]
  · rfl

/-- Two frames with the same control and the same values. -/
def Alike (f g : Frame) : Prop := g.control = f.control ∧ g.values = f.values

end LuaMachine.Frame
