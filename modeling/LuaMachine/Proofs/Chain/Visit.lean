import LuaMachine.Proofs.Suspension.Inquiry

namespace LuaMachine

open Machine Exec

namespace Machine

variable (m : Machine) (e : Event) (k : Value)

def stored (v k : Value) : Value :=
  match v with
  | .table t => (m.table t).get k
  | _ => .nil

structure Passes (v w : Value) : Prop where
  absent : m.stored v k = .nil
  handler : m.handler v e = w
  present : w ≠ .nil
  further : ∀ f, w ≠ .function f

/-- The value that an operation on `v` visits after `n` others. -/
inductive Visits (v : Value) : Nat → Value → Prop where
  | start : Visits v 0 v
  | next {n : Nat} {u w : Value} : Visits v n u → m.Passes e k u w → Visits v (n + 1) w

def Settles (v : Value) : Prop :=
  m.stored v k ≠ .nil ∨ m.handler v e = .nil ∨ ∃ f, m.handler v e = .function f

variable {m e k} {v w w' : Value} {n : Nat}

theorem settles_or_passes (v : Value) : m.Settles e k v ∨ ∃ w, m.Passes e k v w := by
  by_cases hs : m.stored v k = .nil
  · by_cases hn : m.handler v e = .nil
    · exact .inl (.inr (.inl hn))
    · by_cases hf : ∃ f, m.handler v e = .function f
      · exact .inl (.inr (.inr hf))
      · exact .inr ⟨_, hs, rfl, hn, fun f hw => hf ⟨f, hw⟩⟩
  · exact .inl (.inl hs)

theorem Visits.unique (h : m.Visits e k v n w) (h' : m.Visits e k v n w') : w = w' := by
  induction h generalizing w' with
  | start =>
    cases h'
    rfl
  | next _ hp ih =>
    cases h' with
    | next hv hp' =>
      obtain rfl := ih hv
      exact hp.handler.symm.trans hp'.handler

/-- Whatever the handlers are, an operation comes to a value that settles it or to the limit. -/
theorem exists_visits (limit : Nat) (v : Value) :
    ∃ n w, m.Visits e k v n w ∧ (n = limit ∨ n < limit ∧ m.Settles e k w) := by
  induction limit with
  | zero => exact ⟨0, v, .start, .inl rfl⟩
  | succ limit ih =>
    obtain ⟨n, w, hv, rfl | ⟨hn, hs⟩⟩ := ih
    · rcases settles_or_passes w with hs | ⟨u, hp⟩
      · exact ⟨n, w, hv, .inr ⟨Nat.lt_succ_self n, hs⟩⟩
      · exact ⟨n + 1, u, hv.next hp, .inl rfl⟩
    · exact ⟨n, w, hv, .inr ⟨Nat.lt_succ_of_lt hn, hs⟩⟩

end Machine

namespace Exec

variable {m : Machine} {k v w : Value} {t : TableId} {n : Nat}

section Steps

theorem isNil_eq_false (h : v ≠ .nil) : v.isNil = false := by
  cases v with
  | nil => exact absurd rfl h
  | _ => rfl

theorem indexStep_found (hs : m.stored v k ≠ .nil) : indexStep m v k = .found (m.stored v k) := by
  have hn : (!(m.stored v k).isNil) = true := by rw [isNil_eq_false hs]; rfl
  exact if_pos hn

theorem indexStep_handler (hs : m.stored v k = .nil) (hh : m.handler v .index ≠ .nil) :
    indexStep m v k = .handler (m.handler v .index) := by
  have hn : ¬(!(m.stored v k).isNil) = true := by rw [hs]; nofun
  refine (if_neg hn).trans ?_
  generalize m.handler v .index = h at hh
  cases h with
  | nil => exact absurd rfl hh
  | _ => rfl

theorem indexStep_absent (hs : m.stored (.table t) k = .nil)
    (hh : m.handler (.table t) .index = .nil) : indexStep m (.table t) k = .absent := by
  have hn : ¬(!(m.stored (.table t) k).isNil) = true := by rw [hs]; nofun
  refine (if_neg hn).trans ?_
  rw [hh]

theorem indexStep_stuck (hv : ∀ t, v ≠ .table t) (hh : m.handler v .index = .nil) :
    indexStep m v k = .stuck := by
  cases v with
  | table t => exact absurd rfl (hv t)
  | _ =>
    unfold indexStep
    rw [hh]
    rfl

theorem assignStep_store
    (h : m.stored (.table t) k ≠ .nil ∨ m.handler (.table t) .newIndex = .nil) :
    assignStep m (.table t) k = .store t := by
  unfold assignStep
  dsimp only
  split
  · next hc =>
    rw [Bool.and_eq_true] at hc
    have hs : m.stored (.table t) k = .nil := by
      change (m.table t).get k = .nil
      revert hc
      cases (m.table t).get k <;> simp [Value.isNil]
    rw [h.resolve_left (not_not_intro hs)]
  · rfl

theorem assignStep_handler (hs : m.stored v k = .nil) (hh : m.handler v .newIndex ≠ .nil) :
    assignStep m v k = .handler (m.handler v .newIndex) := by
  cases v with
  | table t =>
    have hm : (m.table t).metatable.isSome = true := by
      cases hm : (m.table t).metatable with
      | none => exact absurd (by rw [Machine.handler, Machine.metatable, hm]) hh
      | some u => rfl
    have hs : (m.table t).get k = .nil := hs
    unfold assignStep
    dsimp only
    rw [if_pos (by rw [hm, hs]; rfl)]
    generalize m.handler (.table t) .newIndex = h at hh
    cases h with
    | nil => exact absurd rfl hh
    | _ => rfl
  | _ =>
    unfold assignStep
    dsimp only
    generalize Machine.handler m _ .newIndex = h at hh
    cases h with
    | nil => exact absurd rfl hh
    | _ => rfl

theorem assignStep_stuck (hv : ∀ t, v ≠ .table t) (hh : m.handler v .newIndex = .nil) :
    assignStep m v k = .stuck := by
  cases v with
  | table t => exact absurd rfl (hv t)
  | _ =>
    unfold assignStep
    rw [hh]

end Steps

end Exec

namespace Machine

variable {m : Machine} {k v w x : Value} {n : Nat}

theorem Visits.indexFinding_eq (h : m.Visits .index k v n w) (j : Nat) :
    m.indexFinding (n + j) v k = m.indexFinding j w k := by
  induction h generalizing j with
  | start => rw [Nat.zero_add]
  | @next n u w _ hp ih =>
    have hs := indexStep_handler hp.absent (hp.handler ▸ hp.present)
    rw [hp.handler] at hs
    rw [Nat.succ_add_eq_add_succ, ih, indexFinding, hs]
    cases w with
    | function f => exact absurd rfl (hp.further f)
    | _ => rfl

theorem Visits.assignFinding_eq (h : m.Visits .newIndex k v n w) (j : Nat) :
    m.assignFinding (n + j) v k x = m.assignFinding j w k x := by
  induction h generalizing j with
  | start => rw [Nat.zero_add]
  | @next n u w _ hp ih =>
    have hs := assignStep_handler hp.absent (hp.handler ▸ hp.present)
    rw [hp.handler] at hs
    rw [Nat.succ_add_eq_add_succ, ih, assignFinding, hs]
    cases w with
    | function f => exact absurd rfl (hp.further f)
    | _ => rfl

end Machine

end LuaMachine
