import LuaMachine.Proofs.Guarded.Handler

namespace LuaMachine

open Machine Exec

namespace Frame

def replaced (f : Frame) (i : Nat) : Frame :=
  if i < (f.drop 1).top then (f.drop 1).setSlot i f.peek else f.drop 1

/-- The results go into slots from `a` on, `c - 1` of them, or, if `c` is zero, the marker goes above
them. -/
def stored (a c : Nat) (f : Frame) : Frame :=
  match c with
  | 0 => f.push (markerAt a)
  | n + 1 => (List.range' a n).reverse.foldl replaced f

namespace Alike

variable {f g k : Frame}

theorem refl (f : Frame) : f.Alike f := ⟨rfl, rfl⟩

theorem symm (h : f.Alike g) : g.Alike f := ⟨h.1.symm, h.2.symm⟩

theorem trans (h : f.Alike g) (h' : g.Alike k) : f.Alike k := ⟨h'.1.trans h.1, h'.2.trans h.2⟩

theorem top (h : f.Alike g) : g.top = f.top := (congrArg Frame.top h.1 : g.control.top = f.control.top)

theorem restack (h : f.Alike g) (op : Frame → Frame) [ho : Frame.Restacks op]
    (hv : (op g).values = (op f).values) : (op f).Alike (op g) := by
  have ht : (op g).top = (op f).top := by rw [← (op g).length_values, hv, (op f).length_values]
  exact ⟨by rw [ho.control, ho.control, h.1, ht], hv⟩

theorem pushAll (h : f.Alike g) (vs : List Value) : (f.pushAll vs).Alike (g.pushAll vs) :=
  h.restack (·.pushAll vs) (by rw [values_pushAll, values_pushAll, h.2])

theorem push (h : f.Alike g) (v : Value) : (f.push v).Alike (g.push v) :=
  h.restack (·.push v) (by rw [values_push, values_push, h.2])

theorem drop (h : f.Alike g) (n : Nat) : (f.drop n).Alike (g.drop n) :=
  h.restack (·.drop n) (by rw [values_drop, values_drop, h.2, h.top])

theorem setSlot (h : f.Alike g) (i : Nat) (v : Value) : (f.setSlot i v).Alike (g.setSlot i v) :=
  h.restack (·.setSlot i v) (by rw [values_setSlot, values_setSlot, h.2])

theorem peek (h : f.Alike g) : g.peek = f.peek := by rw [peek_eq, peek_eq, h.2]

theorem replaced (h : f.Alike g) (i : Nat) : (f.replaced i).Alike (g.replaced i) := by
  unfold Frame.replaced
  rw [(h.drop 1).top, h.peek]
  split
  · exact (h.drop 1).setSlot i _
  · exact h.drop 1

theorem stored (h : f.Alike g) (a c : Nat) : (f.stored a c).Alike (g.stored a c) := by
  cases c with
  | zero => exact h.push _
  | succ n =>
    change (List.foldl _ f _).Alike (List.foldl _ g _)
    induction (List.range' a n).reverse generalizing f g with
    | nil => exact h
    | cons i l ih => exact ih (h.replaced i)

end Alike
end Frame

namespace Exec

variable {m : Machine}

theorem run_replace (h : 1 < m.frameCount) (i : Nat) :
    replace (i + 1 : Nat) m = .done () (m.modifyTop m.running (·.replaced i)) := by
  have hf : (m.modifyTop m.running (·.drop 1)).frame = m.frame.drop 1 := frameAt_modifyTop_self h _
  have ha : m.frame.absolute (i + 1 : Nat) = (i + 1 : Nat) := if_pos (.inl (Int.natCast_nonneg _))
  unfold replace absIndex storeAt
  rw [run_bind, run_readFrame, Outcome.andThen_done, run_bind, run_pop, Outcome.andThen_done, ha,
    run_bind, run_readFrame, Outcome.andThen_done, hf]
  by_cases hi : i < (m.frame.drop 1).top
  · rw [Rearranges.place_slot hi]
    change Outcome.done () ((m.modifyTop m.running _).modifyTop m.running _) = _
    rw [modifyTop_modifyTop]
    exact congrArg (Outcome.done ()) (modifyTop_congr (if_pos hi).symm)
  · rw [Rearranges.place_above (Nat.le_of_not_lt hi)]
    exact congrArg (Outcome.done ()) (modifyTop_congr (if_neg hi).symm)

theorem run_replaceAll (h : 1 < m.frameCount) (l : List Nat) :
    ((l.map (· + 1)).forM fun i => replace (i : Nat)) m =
      .done () (m.modifyTop m.running fun f => l.foldl Frame.replaced f) := by
  induction l generalizing m with
  | nil => exact congrArg (Outcome.done ()) (m.modifyTop_id m.running).symm
  | cons i l ih =>
    have hs : 1 < (m.modifyTop m.running (·.replaced i)).frameCount :=
      Nat.lt_of_lt_of_eq h (m.size_modifyTop ..).symm
    have hc := @ih _ hs
    change (replace (i + 1 : Nat) m).andThen
      (fun _ => (l.map (· + 1)).forM fun i => replace (i : Nat)) = _
    rw [run_replace h, Outcome.andThen_done, hc]
    exact congrArg (Outcome.done ()) (modifyTop_modifyTop ..)

theorem run_storeResults (h : 1 < m.frameCount) (a c : Nat) :
    storeResults (a + 1) c m = .done () (m.modifyTop m.running (Frame.stored a c)) := by
  cases c with
  | zero => rfl
  | succ n =>
    have hr : (List.range' (a + 1) n).reverse = (List.range' a n).reverse.map (· + 1) := by
      rw [List.map_reverse, Nat.add_comm a, ← List.map_add_range']
      simp only [Nat.add_comm]
    rw [storeResults, hr]
    exact run_replaceAll h _

end Exec
end LuaMachine
