import Mathlib.Data.List.Rotate
import LuaMachine.Proofs.Frame.Clear
import LuaMachine.Proofs.Frame.Values

namespace LuaMachine.Frame

def cycled (vs : List Value) (n : Int) : List Value := vs.rotate (-n % vs.length).toNat

variable (f : Frame) (vs : List Value) (n : Int)

@[simp]
theorem length_cycled : (cycled vs n).length = vs.length := List.length_rotate ..

theorem cycled_nil : cycled [] n = [] := List.rotate_nil _

theorem cycled_zero : cycled vs 0 = vs := List.rotate_zero vs

theorem cycled_eq {k : Nat} (hk : -n % vs.length = k) (hl : k ≤ vs.length) :
    cycled vs n = vs.drop k ++ vs.take k := by
  rw [cycled, hk, Int.toNat_natCast, List.rotate_eq_drop_append_take hl]

theorem cycled_append (xs ys : List Value) : cycled (xs ++ ys) ys.length = ys ++ xs := by
  rcases Nat.eq_zero_or_pos ys.length with hy | hy
  · obtain rfl := List.eq_nil_of_length_eq_zero hy
    rw [List.append_nil]
    exact cycled_zero xs
  · rw [cycled_eq (k := xs.length), List.drop_left, List.take_left]
    · rw [← Int.add_emod_right, List.length_append, Int.emod_eq_of_lt (by omega) (by omega)]
      omega
    · exact List.length_append ▸ Nat.le_add_right ..

theorem cycled_append_neg (xs ys : List Value) : cycled (xs ++ ys) (-xs.length) = ys ++ xs := by
  rcases Nat.eq_zero_or_pos ys.length with hy | hy
  · obtain rfl := List.eq_nil_of_length_eq_zero hy
    rw [List.append_nil, cycled, Int.neg_neg, Int.emod_self]
    exact List.rotate_zero _
  · rw [cycled_eq (k := xs.length), List.drop_left, List.take_left]
    · rw [Int.neg_neg, List.length_append, Int.emod_eq_of_lt (by omega) (by omega)]
    · exact List.length_append ▸ Nat.le_add_right ..

theorem cycled_cycled (p : Int) : cycled (cycled vs n) p = cycled vs (n + p) := by
  rcases Nat.eq_zero_or_pos vs.length with h | h
  · obtain rfl := List.eq_nil_of_length_eq_zero h
    rw [cycled_nil, cycled_nil, cycled_nil]
  · have hz : (vs.length : Int) ≠ 0 := by omega
    rw [cycled, length_cycled, cycled, List.rotate_rotate, ← List.rotate_mod, cycled,
      ← List.rotate_mod vs (-(n + p) % _).toNat]
    congr 1
    apply Int.ofNat.inj
    change ((_ : Nat) : Int) = ((_ : Nat) : Int)
    rw [Int.natCast_emod, Int.natCast_emod, Int.natCast_add,
      Int.toNat_of_nonneg (Int.emod_nonneg _ hz), Int.toNat_of_nonneg (Int.emod_nonneg _ hz),
      Int.toNat_of_nonneg (Int.emod_nonneg _ hz), ← Int.add_emod, Int.emod_emod_of_dvd _ (Int.dvd_refl _),
      Int.neg_add]

theorem getElem?_cycled {j : Nat} (hj : j < vs.length) :
    (cycled vs n)[((j + n) % vs.length).toNat]? = vs[j]? := by
  have hz : (vs.length : Int) ≠ 0 := by omega
  have hq := Int.emod_nonneg (j + n) hz
  have hr := Int.emod_nonneg (-n) hz
  have hlt := Int.emod_lt_of_pos (j + n) (b := vs.length) (by omega)
  have hsum : (((j + n) % vs.length).toNat + (-n % vs.length).toNat) % vs.length = j := by
    apply Int.ofNat.inj
    change ((_ : Nat) : Int) = ((_ : Nat) : Int)
    rw [Int.natCast_emod, Int.natCast_add, Int.toNat_of_nonneg hq, Int.toNat_of_nonneg hr,
      ← Int.add_emod, Int.add_neg_cancel_right, Int.emod_eq_of_lt (by omega) (by omega)]
  rw [cycled, List.getElem?_rotate (by omega), hsum]

theorem values_reverse {zs xs ys : List Value} {last : Nat} (h : f.values = zs ++ xs ++ ys)
    (hl : last + 1 = zs.length + xs.length) :
    (f.reverse zs.length last).values = zs ++ xs.reverse ++ ys := by
  have ht : f.top = zs.length + xs.length + ys.length := by
    rw [← f.length_values, h, List.length_append, List.length_append]
  unfold reverse
  split
  · have hx : f.window.slice zs.length (last + 1 - zs.length) = xs := by
      rw [f.slice_eq (by omega), h, hl, Nat.add_sub_cancel_left, List.append_assoc, List.drop_left,
        List.take_left]
    rw [hx, values_writeAll f (by rw [List.length_reverse]; omega), h, List.length_reverse,
      List.append_assoc zs xs ys, List.take_left, ← List.append_assoc zs xs ys, ← List.length_append,
      List.drop_left]
  · have hx : xs.reverse = xs := by
      match xs, hl with
      | [], _ => rfl
      | [_], _ => rfl
      | _ :: _ :: _, hl =>
        simp only [List.length_cons] at hl
        omega
    rw [h, hx]

/-- The three reversals bring the part `ys` of the values below the part `xs`. -/
theorem values_swap {zs xs ys : List Value} {split : Nat} (h : f.values = zs ++ xs ++ ys)
    (hs : split + 1 = zs.length + xs.length) (hy : 0 < ys.length) :
    (((f.reverse zs.length split).reverse (split + 1) (f.top - 1)).reverse zs.length
      (f.top - 1)).values = zs ++ ys ++ xs := by
  have ht : f.top = zs.length + xs.length + ys.length := by
    rw [← f.length_values, h, List.length_append, List.length_append]
  have h₁ : (f.reverse zs.length split).values = zs ++ xs.reverse ++ ys ++ [] := by
    rw [List.append_nil, f.values_reverse h hs]
  have h₂ : ((f.reverse zs.length split).reverse (split + 1) (f.top - 1)).values =
      zs ++ (xs.reverse ++ ys.reverse) ++ [] := by
    rw [hs, ← xs.length_reverse, ← List.length_append,
      values_reverse _ h₁ (by rw [List.length_append, List.length_reverse]; omega), List.append_assoc zs]
  rw [values_reverse _ h₂ (by rw [List.length_append, List.length_reverse, List.length_reverse]; omega),
    List.reverse_append, List.reverse_reverse, List.reverse_reverse, List.append_nil, List.append_assoc]

/-- A remainder that has the sign of `n` leaves the same places to turn by. -/
theorem neg_tmod_emod (n s : Int) : -(n.tmod s) % s = -n % s := by
  have h : -n = -(n.tmod s) + s * -(n.tdiv s) := by
    have := n.mul_tdiv_add_tmod s
    rw [Int.mul_neg]
    omega
  rw [h, Int.add_mul_emod_self_left]

theorem neg_emod_eq {n : Int} {size : Nat} (hs : 0 < size) (hk : n.tmod size ≠ 0) :
    0 < -n % size ∧ -n % size = if 0 ≤ n.tmod size then size - n.tmod size else -n.tmod size := by
  have hl := Int.tmod_lt_of_pos n (Int.natCast_pos.mpr hs)
  have hg := Int.lt_tmod_of_pos n (Int.natCast_pos.mpr hs)
  rw [← neg_tmod_emod]
  generalize n.tmod size = k at hk hl hg
  split
  · rw [← Int.add_emod_right, Int.emod_eq_of_lt (by omega) (by omega)]
    omega
  · rw [Int.emod_eq_of_lt (by omega) (by omega)]
    omega

theorem values_rotate_eq (start : Nat) :
    (f.rotate start n).values = f.values.take start ++ cycled (f.values.drop start) n := by
  unfold rotate
  split
  · next hs =>
    have hl : (f.values.drop start).length = f.top - start := by
      rw [List.length_drop, length_values]
    have hz : (f.values.take start).length = start := by
      rw [List.length_take, length_values]
      omega
    dsimp only
    split
    · next hk =>
      have hn : -n % ((f.top - start : Nat) : Int) = (0 : Nat) := by
        rw [← neg_tmod_emod, hk]
        rfl
      rw [cycled_eq _ _ (hl ▸ hn) (Nat.zero_le _), List.take_zero, List.append_nil, List.drop_zero,
        List.take_append_drop]
    · next hk =>
      obtain ⟨hp, he⟩ := neg_emod_eq (Nat.sub_pos_of_lt hs) hk
      have hlt := Int.emod_lt_of_pos (-n) (Int.natCast_pos.mpr (Nat.sub_pos_of_lt hs))
      obtain ⟨k, hk⟩ := Int.eq_ofNat_of_zero_le (Int.le_of_lt hp)
      have hv : f.values = f.values.take start ++ (f.values.drop start).take k ++
          (f.values.drop start).drop k := by
        rw [List.append_assoc, List.take_append_drop, List.take_append_drop]
      have hs : start + k - 1 + 1 =
          (f.values.take start).length + ((f.values.drop start).take k).length := by
        rw [hz, List.length_take]
        omega
      have hswap := f.values_swap hv hs (by rw [List.length_drop]; omega)
      rw [cycled_eq _ _ (hl ▸ hk) (by omega), ← List.append_assoc, ← hswap, hz]
      congr 4 <;> split at he <;> omega
  · next hs =>
    have hl : f.values.length ≤ start := by
      rw [length_values]
      omega
    rw [List.drop_eq_nil_of_le hl, List.take_of_length_le hl, cycled_nil, List.append_nil]

theorem slot_rotate_below {start i : Nat} (hi : i < start) :
    (f.rotate start n).slot i = f.slot i := by
  rcases Nat.lt_or_ge i f.top with ht | ht
  · rw [slot_eq _ (by rwa [top_rotate]), slot_eq _ ht, values_rotate_eq,
      List.getElem?_append_left (by rw [List.length_take, length_values]; omega),
      List.getElem?_take_of_lt hi]
  · exact f.slot_rotate_above n ht

theorem slot_rotate {start j : Nat} (hj : start + j < f.top) :
    (f.rotate start n).slot (start + ((j + n) % (f.top - start : Nat)).toNat) =
      f.slot (start + j) := by
  have hl : (f.values.drop start).length = f.top - start := by
    rw [List.length_drop, length_values]
  have hz : (f.values.take start).length = start := by
    rw [List.length_take, length_values]
    omega
  have hlt := Int.emod_lt_of_pos (j + n) (b := (f.top - start : Nat)) (by omega)
  have hge := Int.emod_nonneg (j + n) (b := (f.top - start : Nat)) (by omega)
  rw [slot_eq _ (by rw [top_rotate]; omega), slot_eq _ hj, values_rotate_eq,
    List.getElem?_append_right (by omega), hz, Nat.add_sub_cancel_left, ← hl,
    getElem?_cycled _ _ (by omega), List.getElem?_drop]

theorem values_rotate_rotate (start : Nat) (p : Int) :
    ((f.rotate start n).rotate start p).values = (f.rotate start (n + p)).values := by
  rcases Nat.le_total f.top start with hs | hs
  · have hd : f.values.drop start = [] := List.drop_eq_nil_of_le (by rwa [length_values])
    simp only [values_rotate_eq, hd, cycled_nil, List.append_nil, List.take_take, Nat.min_self,
      List.drop_take_self]
  · have hz : (f.values.take start).length = start := by
      rw [List.length_take, length_values]
      omega
    rw [values_rotate_eq, values_rotate_eq, values_rotate_eq, List.take_left' hz, List.drop_left' hz,
      cycled_cycled]

theorem values_rotate {zs xs ys : List Value} (h : f.values = zs ++ xs ++ ys) :
    (f.rotate zs.length ys.length).values = zs ++ ys ++ xs := by
  rw [values_rotate_eq, h, List.append_assoc zs xs, List.take_left, List.drop_left, cycled_append,
    List.append_assoc]

theorem values_rotate_neg {zs xs ys : List Value} (h : f.values = zs ++ xs ++ ys) :
    (f.rotate zs.length (-xs.length)).values = zs ++ ys ++ xs := by
  rw [values_rotate_eq, h, List.append_assoc zs xs, List.take_left, List.drop_left,
    cycled_append_neg, List.append_assoc]

theorem values_rotate_push (v : Value) : ((f.push v).rotate 0 1).values = v :: f.values := by
  have hr : ((f.push v).rotate ([] : List Value).length [v].length).values = [] ++ [v] ++ f.values :=
    values_rotate (f.push v) (f.values_push v)
  exact hr

end LuaMachine.Frame
