import LuaMachine.Proofs.Concatenation.Pairs
import LuaMachine.Proofs.Suspension.Completion

namespace LuaMachine

open Machine Exec

/-- Where a concatenation has its operands while so many values are left of the pair. -/
structure Placement where
  left : Nat → Machine → Value
  right : Nat → Machine → Value
  taken : Nat → Machine → Machine
  put : Nat → Value → Machine → Machine

namespace Placement

def stack : Placement where
  left _ m := (m.modifyTop m.running (·.drop 1)).frame.peek
  right _ m := m.frame.peek
  taken _ m := (m.modifyTop m.running (·.drop 1)).modifyTop m.running (·.drop 1)
  put _ v m := m.modifyTop m.running (·.push v)

def registers (b : Nat) : Placement where
  left n m := (m.atPair (b + n)).frame.slot (b + n)
  right n m := (m.atPair (b + n)).frame.slot (b + n + 1)
  taken n m := m.atPair (b + n)
  put n v m := m.modifyTop m.running (·.setSlot (b + n) v)

section Operands

variable (b n : Nat) (m : Machine)

@[simp] theorem left_stack :
    stack.left n m = (m.modifyTop m.running (·.drop 1)).frame.peek := by rw [stack]

@[simp] theorem right_stack : stack.right n m = m.frame.peek := by rw [stack]

@[simp] theorem taken_stack : stack.taken n m =
    (m.modifyTop m.running (·.drop 1)).modifyTop m.running (·.drop 1) := by rw [stack]

@[simp] theorem put_stack (v : Value) :
    stack.put n v m = m.modifyTop m.running (·.push v) := by rw [stack]

@[simp] theorem left_registers :
    (registers b).left n m = (m.atPair (b + n)).frame.slot (b + n) := by rw [registers]

@[simp] theorem right_registers :
    (registers b).right n m = (m.atPair (b + n)).frame.slot (b + n + 1) := by rw [registers]

@[simp] theorem taken_registers : (registers b).taken n m = m.atPair (b + n) := by rw [registers]

@[simp] theorem put_registers (v : Value) :
    (registers b).put n v m = m.modifyTop m.running (·.setSlot (b + n) v) := by rw [registers]

end Operands

variable (re : Reentry) (l : Placement)

def join : Nat → Exec Unit
  | 0 => pure ()
  | n + 1 => fun m =>
    (concatPair re (l.left n m) (l.right n m) (l.taken n m)).andThen fun v m' => join n (l.put n v m')

def joints : Nat → Machine → List Joint
  | 0, _ => []
  | n + 1, m =>
    ⟨l.left n m, l.right n m, l.taken n m,
        (concatPair re (l.left n m) (l.right n m) (l.taken n m)).result?⟩ ::
      match concatPair re (l.left n m) (l.right n m) (l.taken n m) with
      | .done v m' => joints n (l.put n v m')
      | _ => []

/-- A condition on the values that are still to be joined. It tells where the next pair is, and holds of
what is left when this is done. -/
structure Invariant (P : List Value → Value → Machine → Prop) : Prop where
  left : ∀ {a b : Value} {vs : List Value} {m : Machine}, P (a :: vs) b m → l.left vs.length m = a
  right : ∀ {a b : Value} {vs : List Value} {m : Machine}, P (a :: vs) b m → l.right vs.length m = b
  put : ∀ {a b v : Value} {vs : List Value} {m m' : Machine}, P (a :: vs) b m →
    concatPair re a b (l.taken vs.length m) = .done v m' → P vs v (l.put vs.length v m')

variable {re : Reentry} {l : Placement}

theorem join_succ (re : Reentry) (l : Placement) (n : Nat) (m : Machine) : l.join re (n + 1) m =
    (concatPair re (l.left n m) (l.right n m) (l.taken n m)).andThen fun v m' =>
      l.join re n (l.put n v m') := rfl

section Invariant

variable {P : List Value → Value → Machine → Prop} {a b : Value} {vs : List Value} {m : Machine}

theorem Invariant.stopped (h : l.Invariant re P) (hm : P (a :: vs) b m)
    (hx : ∀ v m', concatPair re a b (l.taken vs.length m) ≠ .done v m') :
    Joins (a :: vs) b (l.joints re (vs.length + 1) m)
      (concatPair re a b (l.taken vs.length m)).result? := by
  have hj : l.joints re (vs.length + 1) m =
      [⟨a, b, l.taken vs.length m, (concatPair re a b (l.taken vs.length m)).result?⟩] := by
    rw [joints, h.left hm, h.right hm]
    cases hc : concatPair re a b (l.taken vs.length m) with
    | done v m' => exact absurd hc (hx v m')
    | raised e m' | exhausted => rfl
  have hn (v : Value) : (concatPair re a b (l.taken vs.length m)).result? ≠ some (.ok v) := fun hv => by
    obtain ⟨m', hd⟩ := Outcome.result?_eq_ok.mp hv
    exact hx v m' hd
  rw [hj]
  rw [← Joint.result?_pair] at hn
  have hs : Joins (a :: vs) b _ _ := .stopped hn
  rwa [Joint.result?_pair] at hs

/-- The pairs of a concatenation are those of the values, and it ends in the machine where what they come
to has taken their place. -/
theorem Invariant.joins (h : l.Invariant re P) (hm : P vs b m) :
    ∃ r, Joins vs b (l.joints re vs.length m) r ∧
      match l.join re vs.length m with
      | .done _ m' => ∃ v, r = some (.ok v) ∧ P [] v m'
      | .raised e _ => r = some (.error e.unplaced)
      | .exhausted => r = none := by
  -- what a pair comes to is an operand of the next one, and the invariant holds with one value fewer
  induction vs generalizing b m with
  | nil => exact ⟨_, .alone b, b, rfl, hm⟩
  | cons a vs ih =>
    have hs := h.stopped hm
    rw [List.length_cons, join_succ, h.left hm, h.right hm]
    cases hx : concatPair re a b (l.taken vs.length m) with
    | done v m' =>
      obtain ⟨r, hj, hr⟩ := ih (h.put hm hx)
      refine ⟨r, ?_, hr⟩
      rw [joints, h.left hm, h.right hm, hx]
      have hv := Joint.result?_pair re a b (l.taken vs.length m)
      rw [hx] at hv
      exact .joined hv hj
    | raised e m' =>
      rw [hx] at hs
      exact ⟨_, hs nofun, rfl⟩
    | exhausted =>
      rw [hx] at hs
      exact ⟨_, hs nofun, rfl⟩

theorem Invariant.result (h : l.Invariant re P) (hm : P vs b m) {k : Exec Value}
    (hk : ∀ v m', P [] v m' → ∃ m'', k m' = .done v m'') :
    Joins vs b (l.joints re vs.length m) ((do l.join re vs.length; k : Exec Value) m).result? := by
  obtain ⟨r, hj, hr⟩ := h.joins hm
  rw [run_bind]
  cases hx : l.join re vs.length m with
  | done u m' =>
    rw [hx] at hr
    obtain ⟨v, rfl, hm'⟩ := hr
    obtain ⟨m'', he⟩ := hk v m' hm'
    rw [Outcome.andThen_done, he]
    exact hj
  | raised e m' =>
    rw [hx] at hr
    cases hr
    exact hj
  | exhausted =>
    rw [hx] at hr
    cases hr
    exact hj

end Invariant

end Placement

namespace Exec

variable (re : Reentry)

theorem concatPairs_eq (n : Nat) : concatPairs re n = Placement.stack.join re n := by
  induction n with
  | zero => rfl
  | succ n ih =>
    funext m
    rw [concatPairs, run_bind, run_pop, Outcome.andThen_done, run_bind, run_pop, Outcome.andThen_done,
      run_bind, ih, Placement.join_succ]
    rfl

theorem concat_eq (n : Nat) : concat re (n + 1) = Placement.stack.join re n := concatPairs_eq re n

theorem concatFrom_eq (a b n : Nat) : concatFrom re a b n =
    ((do (Placement.registers b).join re n; setRegister a (← register b)) : Exec Unit) := by
  induction n with
  | zero => rfl
  | succ n ih =>
    funext m
    rw [concatFrom_succ, ih, run_bind, Placement.join_succ, Placement.left_registers,
      Placement.right_registers, Placement.taken_registers]
    cases concatPair re ((m.atPair (b + n)).frame.slot (b + n))
      ((m.atPair (b + n)).frame.slot (b + n + 1)) (m.atPair (b + n)) <;> rfl

end Exec

end LuaMachine
