import LuaMachine.Proofs.Frame.Rotation

namespace LuaMachine

open Machine

namespace Frame

/-- The callee of a protected call has returned: the guard is gone, and true is below the results. -/
def completed (f : Frame) : Frame := (({ f with guard := none } : Frame).push (.bool true)).rotate 0 1

instance : Benign completed where
  origin f := (inferInstance : Benign fun f : Frame => f.rotate 0 1).origin
    (({ f with guard := none } : Frame).push (.bool true))

theorem values_completed (f : Frame) : f.completed.values = .bool true :: f.values :=
  values_rotate_push ({ f with guard := none } : Frame) (.bool true)

end Frame

namespace Exec

theorem run_takeGuard (m : Machine) : takeGuard m = .done (m.frame.guard.bind Guard.handler)
    (m.modifyTop m.running fun f => { f with guard := none }) := rfl

theorem run_insertBelow (m : Machine) :
    insert 1 m = .done () (m.modifyTop m.running (·.rotate 0 1)) := rfl

theorem run_leaveAll (m : Machine) :
    ∃ us, Upvalue.Closes m.upvalues us ∧
      leave 0 m = .done m.frame.site ((m.cut m.running (m.frameCount - 1) us).modifyTop m.running
        (·.pushAll (adjust m.frame.values m.frame.wanted))) := by
  have h := run_leave 0 m
  rwa [Nat.sub_zero, Frame.topValues_all] at h

theorem run_leaveChanged (m : Machine) (h : 1 < m.frameCount) (g : Frame → Frame)
    [hg : Frame.Benign g] :
    ∃ us, Upvalue.Closes m.upvalues us ∧
      leave 0 (m.modifyTop m.running g) = .done m.frame.site
        ((m.cut m.running (m.frameCount - 1) us).modifyTop m.running
          (·.pushAll (adjust (g m.frame).values m.frame.wanted))) := by
  obtain ⟨us, hu, he⟩ := run_leaveAll (m.modifyTop m.running g)
  have hf : (m.modifyTop m.running g).frame = g m.frame := frameAt_modifyTop_self h g
  have hs : (m.modifyTop m.running g).frameCount = m.frameCount := size_modifyTop ..
  have ho := hg.origin m.frame
  have hc : (m.modifyTop m.running g).cut m.running (m.frameCount - 1) us =
    m.cut m.running (m.frameCount - 1) us := cut_modifyTop m m.running g us
  refine ⟨us, hu, he.trans ?_⟩
  rw [hf, hs]
  change Outcome.done (g m.frame).site
    (((m.modifyTop m.running g).cut m.running (m.frameCount - 1) us).modifyTop m.running _) = _
  rw [hc, show (g m.frame).site = m.frame.site from congrArg Origin.site ho,
    show (g m.frame).wanted = m.frame.wanted from congrArg Origin.wanted ho]

theorem leave_changed {m : Machine} (hone : 1 < m.frameCount) (g : Frame → Frame) [hg : Frame.Benign g]
    (hc : (g m.frame).captured = []) : leave 0 (m.modifyTop m.running g) = .done m.frame.site
      ((m.cut m.running (m.frameCount - 1) m.upvalues).modifyTop m.running
        (·.pushAll (adjust (g m.frame).values m.frame.wanted))) := by
  have hf : (m.modifyTop m.running g).frame = g m.frame := frameAt_modifyTop_self hone g
  have hn : (m.modifyTop m.running g).frameCount = m.frameCount := size_modifyTop ..
  have hs : (g m.frame).site = m.frame.site := congrArg Origin.site (hg.origin m.frame)
  have hw : (g m.frame).wanted = m.frame.wanted := congrArg Origin.wanted (hg.origin m.frame)
  have hcut : (m.modifyTop m.running g).cut m.running (m.frameCount - 1) m.upvalues =
    m.cut m.running (m.frameCount - 1) m.upvalues := m.cut_modifyTop m.running g m.upvalues
  have hl := leave_uncaptured (m := m.modifyTop m.running g) (by rw [hf, hc])
  rw [hf, hn, hs, hw, Frame.topValues_all] at hl
  rw [hl, show (m.modifyTop m.running g).running = m.running from rfl,
    show (m.modifyTop m.running g).upvalues = m.upvalues from rfl, hcut]

theorem run_completeGuarded (m : Machine) (h : 1 < m.frameCount) :
    ∃ us, Upvalue.Closes m.upvalues us ∧
      completeGuarded m = .done m.frame.site
        ((m.cut m.running (m.frameCount - 1) us).modifyTop m.running
          (·.pushAll (adjust (.bool true :: m.frame.values) m.frame.wanted))) := by
  obtain ⟨us, hu, he⟩ := run_leaveChanged m h Frame.completed
  refine ⟨us, hu, ?_⟩
  rw [Frame.values_completed] at he
  rw [← he]
  simp only [completeGuarded, run_bind, run_discard, run_takeGuard, Outcome.andThen_done, run_pure,
    run_push, run_insertBelow]
  change leave 0 (((m.modifyTop m.running _).modifyTop m.running _).modifyTop m.running _) = _
  rw [modifyTop_modifyTop, modifyTop_modifyTop]
  rfl

variable (re : Reentry)

theorem runHandler_done (handler v : Value) (m : Machine) :
    runHandler re handler v m = .exhausted ∨ ∃ r m', runHandler re handler v m = .done r m' := by
  let asked := (m.modifyTop m.running (·.push handler)).modifyTop m.running (·.push v)
  change ((attempt (call re 1 1) asked).andThen _) = _ ∨
    ∃ r m', ((attempt (call re 1 1) asked).andThen _) = _
  cases he : call re 1 1 asked with
  | done a m' =>
    rw [run_attempt_done he]
    exact .inr ⟨_, _, rfl⟩
  | raised e m' =>
    rw [run_attempt_raised he]
    exact .inr ⟨_, _, rfl⟩
  | exhausted =>
    rw [run_attempt_exhausted he]
    exact .inl rfl

theorem caughtValue_done (handler : Option Value) (e : Error) (m : Machine) :
    caughtValue re handler e m = .exhausted ∨ ∃ v m', caughtValue re handler e m = .done v m' := by
  cases handler with
  | none => exact .inr ⟨_, _, rfl⟩
  | some k =>
    rcases runHandler_done re k e.toValue m with he | ⟨r, m', he⟩
    · exact .inl (by rw [caughtValue, run_bind, he]; rfl)
    · exact .inr ⟨_, m', by rw [caughtValue, run_bind, he]; rfl⟩

def endFailed (level : Nat) (e : Error) : Exec Nat := do
  truncateFrames level
  let v ← caughtValue re (← takeGuard) e
  modifyFrame (·.setTop 0)
  push (.bool false)
  push v
  return 2

def endReturned : Exec Nat := do
  discard takeGuard
  push (.bool true)
  insert 1
  top

theorem endReturned_eq (m : Machine) (h : 1 < m.frameCount) :
    endReturned m = .done (m.frame.top + 1) (m.modifyTop m.running Frame.completed) := by
  have hmod : ((m.modifyTop m.running fun f => { f with guard := none }).modifyTop m.running
      (·.push (.bool true))).modifyTop m.running (·.rotate 0 1) =
        m.modifyTop m.running Frame.completed := by
    rw [modifyTop_modifyTop, modifyTop_modifyTop]
    rfl
  have htop : (m.modifyTop m.running Frame.completed).frame.top = m.frame.top + 1 := by
    rw [show (m.modifyTop m.running Frame.completed).frame = m.frame.completed from
      frameAt_modifyTop_self h _, ← Frame.length_values, Frame.values_completed, List.length_cons,
      Frame.length_values]
  rw [← htop]
  exact congrArg (fun m' : Machine => Outcome.done m'.frame.top m') hmod

def afterStart (level : Nat) : Outcome Bool → Outcome Nat
  | .done true m => .done 0 m
  | .done false m => endReturned m
  | .raised .yield m => .raised .yield m
  | .raised e m => endFailed re level e m
  | .exhausted => .exhausted

theorem afterStart_raised {re : Reentry} {level : Nat} {e : Error} {m : Machine} (he : e ≠ .yield) :
    afterStart re level (.raised e m) = endFailed re level e m := by
  cases e with
  | yield => exact absurd rfl he
  | _ => rfl

theorem guardedCall_eq (handler : Option Value) (m : Machine) :
    guardedCall re handler m = afterStart re m.frameCount (enter re (m.frame.top - 1) (-1) .guarded
      (m.modifyTop m.running fun f => { f with guard := some { handler } })) := by
  rw [guardedCall, run_bind, run_frameCount, Outcome.andThen_done, run_bind, run_top,
    Outcome.andThen_done, run_bind, run_modifyFrame, Outcome.andThen_done, run_bind]
  cases he : enter re (m.frame.top - 1) (-1) .guarded
      (m.modifyTop m.running fun f => { f with guard := some { handler } }) with
  | done left m' =>
    rw [run_attempt_done he]
    cases left <;> rfl
  | raised e m' =>
    rw [run_attempt_raised he]
    cases e <;> rfl
  | exhausted =>
    rw [run_attempt_exhausted he]
    rfl

end Exec
end LuaMachine
