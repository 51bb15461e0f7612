import LuaMachine.Coroutine
import LuaMachine.Proofs.Run

namespace LuaMachine.Exec

variable (re : Reentry)

def takeUp (source : Option ThreadId) (nargs : Nat) (self : ThreadId) (named resuming : Bool) :
    Exec (Status × Nat) := do
  let source ← read fun m => source.filter m.isNamed
  source.forM (setPhase · .normal)
  if named then setPhase self .running
  modifyThread fun t => { t with hostCalls := 0, status := .ok }
  let threads := source.toList ++ if named then [self] else []
  let result ← attempt <| holding (threads.map .thread) <|
    if resuming then continueCall re nargs else startBody re nargs
  let (status, n, phase) ← settleResume result
  if named then setPhase self phase
  source.forM (setPhase · .running)
  return (status, n)

def innerNesting (m : Machine) (source : Option ThreadId) : Nat :=
  (source.map fun s => (m.threadAt s).nesting).getD 0 + 1

theorem resume_eq (source : Option ThreadId) (nargs : Nat) (m : Machine) :
    resume re source nargs m =
      if (m.isNamed m.running && m.thread.phase == .dead) = true then
        refuse "cannot resume dead coroutine" nargs m
      else if m.thread.status ≠ .yield ∧ 1 < m.frameCount then
        refuse "cannot resume non-suspended coroutine" nargs m
      else if m.thread.status ≠ .yield ∧ m.frame.top < nargs + 1 then
        refuse "cannot resume dead coroutine" nargs m
      else (do
        modifyThread fun t => { t with nesting := innerNesting m source }
        if m.limits.nesting ≤ innerNesting m source then refuse "C stack overflow" nargs
        else
          takeUp re source nargs m.running (m.isNamed m.running)
            (m.thread.status == Status.yield)) m := by
  unfold resume
  simp only [run_bind, run_read, run_readThread, run_ite, Outcome.andThen_done]
  split
  · rfl
  · by_cases hs : m.thread.status = .yield
    · have hn : ∀ p : Prop, ¬(m.thread.status ≠ .yield ∧ p) := fun p h => h.1 hs
      have hy : (m.thread.status == Status.yield) = true := beq_iff_eq.mpr hs
      rw [if_neg (hn _), if_neg (hn _), hy]
      unfold takeUp
      rfl
    · have hy : (m.thread.status == Status.yield) = false := beq_eq_false_iff_ne.mpr hs
      rw [hy, Bool.not_false, if_pos rfl]
      simp only [run_frameCount, run_ite, Outcome.andThen_done, run_bind, run_top]
      by_cases hc : 1 < m.frameCount
      · rw [if_pos hc, if_pos ⟨hs, hc⟩]
      · have hn : ¬(m.thread.status ≠ .yield ∧ 1 < m.frameCount) := fun h => hc h.2
        rw [if_neg hc, if_neg hn]
        by_cases ht : m.frame.top < nargs + 1
        · rw [if_pos ht, if_pos ⟨hs, ht⟩]
        · have hn : ¬(m.thread.status ≠ .yield ∧ m.frame.top < nargs + 1) := fun h => ht h.2
          rw [if_neg ht, if_neg hn]
          unfold takeUp
          rfl

def handOver (m : Machine) (vs : List Value) : Machine :=
  { m with threads := m.threads.modify m.running.index fun th => { th with transfer := vs } }

theorem yieldError_eq (n : Nat) (m : Machine) : yieldError n m =
    if m.inMainThread then .done (.thrown (.ofString "attempt to yield from outside a coroutine")) m
    else if 0 < m.thread.hostCalls then
      .done (.thrown (.ofString "attempt to yield across a C-call boundary")) m
    else .done .yield (handOver (m.modifyTop m.running (·.drop n)) (m.frame.topValues n)) := by
  unfold yieldError
  simp only [run_bind, run_read, Outcome.andThen_done, run_ite, run_readThread]
  split
  · rfl
  · split <;> rfl

end LuaMachine.Exec
