import LuaMachine.Value

namespace LuaMachine

/-- Reading past the end gives nil, writing there makes room. -/
abbrev Window := Array Value

namespace Window

def read (w : Window) (i : Nat) : Value := w.getD i .nil

def reserve (w : Window) (n : Nat) : Window :=
  if w.size < n then w ++ Array.replicate (n - w.size) Value.nil else w

def write (w : Window) (i : Nat) (v : Value) : Window :=
  if i < w.size then w.setIfInBounds i v else (w.reserve i).push v

def clear (w : Window) (i : Nat) : Nat → Window
  | 0 => w
  | n + 1 => clear (w.setIfInBounds i .nil) (i + 1) n

def slice (w : Window) (i n : Nat) : List Value := (List.range' i n).map w.read

def writeAll (w : Window) (i : Nat) : List Value → Window
  | [] => w
  | v :: vs => writeAll (w.write i v) (i + 1) vs

theorem size_reserve (w : Window) (n : Nat) : (w.reserve n).size = max w.size n := by
  unfold reserve
  split
  · rw [Array.size_append, Array.size_replicate]; omega
  · omega

theorem read_reserve (w : Window) (n i : Nat) : (w.reserve n).read i = w.read i := by
  unfold reserve read
  split
  · by_cases h : i < w.size
    · simp [Array.getElem?_append_left h]
    · simp only [Array.getD_eq_getD_getElem?, Array.getElem?_append_right (Nat.le_of_not_lt h),
        Array.getElem?_eq_none (Nat.le_of_not_lt h), Array.getElem?_replicate]
      split <;> rfl
  · rfl

theorem read_write (w : Window) (i j : Nat) (v : Value) :
    (w.write i v).read j = if i = j then v else w.read j := by
  unfold write
  split
  next h =>
    by_cases hij : i = j
    · subst hij; simp [read, h]
    · simp [read, hij]
  next h =>
    have hs : (w.reserve i).size = i := by rw [size_reserve]; omega
    rw [← read_reserve w i j]
    generalize w.reserve i = u at hs
    subst hs
    simp only [read, Array.getD_eq_getD_getElem?, Array.getElem?_push]
    split <;> simp_all [eq_comm]

theorem read_clear (w : Window) (i n j : Nat) :
    (w.clear i n).read j = if i ≤ j ∧ j < i + n then .nil else w.read j := by
  induction n generalizing w i with
  | zero => simp [clear, show ¬(i ≤ j ∧ j < i) by omega]
  | succ n ih =>
    rw [clear, ih]
    by_cases h : i = j
    · subst h
      rw [if_neg (by omega), if_pos (by omega)]
      by_cases hi : i < w.size <;> simp [read, hi]
    · have hr : (i + 1 ≤ j ∧ j < i + 1 + n) ↔ (i ≤ j ∧ j < i + (n + 1)) := by omega
      by_cases hj : i + 1 ≤ j ∧ j < i + 1 + n
      · rw [if_pos hj, if_pos (hr.1 hj)]
      · rw [if_neg hj, if_neg fun hl => hj (hr.2 hl)]
        simp [read, Array.getElem?_setIfInBounds_ne h]

theorem read_writeAll (w : Window) (i : Nat) (vs : List Value) (j : Nat) :
    (w.writeAll i vs).read j =
      if i ≤ j then (vs[j - i]?).getD (w.read j) else w.read j := by
  induction vs generalizing w i with
  | nil => simp [writeAll]
  | cons v vs ih =>
    rw [writeAll, ih]
    by_cases h : i = j
    · subst h
      simp [read_write, show ¬(i + 1 ≤ i) by omega]
    · by_cases hj : i + 1 ≤ j
      · have : j - i = (j - (i + 1)) + 1 := by omega
        simp [read_write, h, hj, this, show i ≤ j by omega]
      · simp [read_write, h, hj, show ¬(i ≤ j) by omega]

theorem getElem?_slice (w : Window) (i n k : Nat) :
    (w.slice i n)[k]? = if k < n then some (w.read (i + k)) else none := by
  simp only [slice, List.getElem?_map]
  split <;> simp_all

theorem length_slice (w : Window) (i n : Nat) : (w.slice i n).length = n := by
  simp [slice]

end Window

end LuaMachine
