import LuaMachine.Proofs.Stack

namespace LuaMachine

open Machine

def markerAt (a : Nat) : Value := .int (Int64.ofNat (a + 1))

/-- An open list that continues register `a` is above the registers, and nothing else. -/
def Machine.Offers (m : Machine) (a : Nat) (regs vs : List Value) : Prop :=
  m.Holds regs.length (regs ++ vs ++ [markerAt a])

/-- What an instruction with operand `a` finds in front of a list that continues register `b`. -/
def registersBetween (regs : List Value) (a b : Nat) : List Value := (regs.take b).drop a

def overwrite (regs : List Value) (a : Nat) (vs : List Value) : List Value :=
  regs.take a ++ vs ++ regs.drop (a + vs.length)

theorem length_registersBetween {regs : List Value} {a b : Nat} (h : b ≤ regs.length) :
    (registersBetween regs a b).length = b - a := by
  rw [registersBetween, List.length_drop, List.length_take, Nat.min_eq_left h]

theorem length_overwrite {regs vs : List Value} {a : Nat} (h : a + vs.length ≤ regs.length) :
    (overwrite regs a vs).length = regs.length := by
  rw [overwrite, List.length_append, List.length_append, List.length_take, List.length_drop]
  omega

theorem toInt_marker {a : Nat} (h : a < 256) : (Int64.ofNat (a + 1)).toInt = a + 1 := by
  rw [Int64.toInt_ofNat_of_lt (by omega)]
  rfl

theorem toInt32_marker {a : Nat} (h : a < 256) :
    (Int64.ofNat (a + 1)).toInt32.toInt = a + 1 := by
  rw [Int64.toInt_toInt32, toInt_marker h]
  exact Int.bmod_eq_of_le (by omega) (by omega)

namespace Exec.Rearranges

variable {n a b : Nat} {regs vs : List Value}

theorem marker : Rearranges n Exec.marker (Int64.ofNat (a + 1)) (vs ++ [markerAt a])
    (vs ++ [markerAt a]) :=
  bind (valueAt_last (markerAt a)) (pure _)

/-- Registers from the operand up to the marker go below the list. -/
theorem gather (hab : a ≤ b) (hb : b ≤ regs.length) (hs : b < 256) :
    Rearranges regs.length (Exec.gather (a + 1)) () (regs ++ vs ++ [markerAt b])
      (regs ++ registersBetween regs a b ++ vs) := by
  have hk : ((b + 1 : Int) - ((a + 1 : Nat) : Int)).toNat = b - a := by omega
  have hp : ((regs ++ vs).drop a).take (b - a) = registersBetween regs a b := by
    rw [List.drop_append_of_le_length (by omega), List.take_append_of_le_length (by simp; omega),
      registersBetween, List.drop_take]
  have hl : (b + 1 : Int) - ((a + 1 : Nat) : Int) = (registersBetween regs a b).length := by
    rw [length_registersBetween hb]
    omega
  have hpush : Rearranges regs.length ((List.range' (a + 1) (b - a)).forM fun i => Exec.pushValue i)
      () (regs ++ vs) (regs ++ vs ++ ((regs ++ vs).drop a).take (b - a)) :=
    pushValues (by rw [List.length_append]; omega)
  rw [hp] at hpush
  have hturn : Rearranges regs.length (Exec.rotate (regs.length + 1 : Nat)
      (registersBetween regs a b).length) () (regs ++ vs ++ registersBetween regs a b)
      (regs ++ registersBetween regs a b ++ vs) := rotate
  refine bind marker (bind (drop [markerAt b]) (bind registerCount ?_))
  rw [toInt32_marker hs, hk]
  refine bind hpush ?_
  rw [hl]
  exact hturn

theorem pushCall (hab : a < b) (hb : b ≤ regs.length) (hs : b < 256) :
    Rearranges regs.length (Exec.pushCall (a + 1) 0) (b - a - 1 + vs.length)
      (regs ++ vs ++ [markerAt b]) (regs ++ registersBetween regs a b ++ vs) := by
  have hl := length_registersBetween (a := a) hb
  refine bind (gather (Nat.le_of_lt hab) hb hs) (bind registerCount (bind top ?_))
  have hh : (regs ++ registersBetween regs a b ++ vs).length =
      regs.length + 1 + (b - a - 1 + vs.length) := by
    rw [List.length_append, List.length_append, hl]
    omega
  rw [hh, if_pos (Nat.le_add_right ..), Nat.sub_sub, Nat.add_sub_cancel_left]
  exact pure _

theorem pushCall_fixed {k : Nat} (hk : a + k < regs.length) :
    Rearranges n (Exec.pushCall (a + 1) (k + 1)) k regs
      (regs ++ registersBetween regs a (a + k + 1)) := by
  have he : registersBetween regs a (a + k + 1) = (regs.drop a).take (k + 1) := by
    rw [registersBetween, List.drop_take, show a + k + 1 - a = k + 1 by omega]
  rw [he]
  exact bind (pushValues (by omega)) (pure k)

theorem storeResults_open : Rearranges n (Exec.storeResults (a + 1) 0) () vs (vs ++ [markerAt a]) :=
  push (markerAt a)

theorem storeResults_fixed (h : a + vs.length ≤ regs.length) :
    Rearranges n (Exec.storeResults (a + 1) (vs.length + 1)) () (regs ++ vs)
      (overwrite regs a vs) :=
  replaceValues rfl h

end Exec.Rearranges
end LuaMachine
