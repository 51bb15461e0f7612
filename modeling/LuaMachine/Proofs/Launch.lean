import LuaMachine.Proofs.Frame.Cut

namespace LuaMachine

/-- The call that the running thread is making is open, unless another one is. -/
def Machine.leftOpen (m : Machine) (wanted : Int) (site : CallSite) : Machine :=
  { m with threads := m.threads.modify m.running.index fun th =>
      { th with pending := th.pending <|> some { site, wanted, base := m.frame.top } } }

theorem Machine.pending_leftOpen {m : Machine} (h : m.running.index < m.threads.size)
    (hp : m.thread.pending = none) (wanted : Int) (site : CallSite) :
    ((m.leftOpen wanted site).threadAt m.running).pending = some
      { site, wanted, base := ((m.leftOpen wanted site).frameAt m.running).top } := by
  have ht : (m.leftOpen wanted site).threadAt m.running = _ := m.threadAt_modify_there h _
  unfold frameAt
  rw [ht]
  change (m.thread.pending <|> some _) = some _
  rw [hp]
  rfl

namespace Machine

variable {m : Machine} {t : ThreadId} {f : Frame}

theorem functionAt_of_le {id : FunctionId} (h : m.functions.size ≤ id.index) :
    m.functionAt id = default := by
  rw [functionAt, Array.getD_eq_getD_getElem?, Array.getElem?_eq_none h, Option.getD_none]

/-- The one native function that may not be there is that which stands for all of those. -/
theorem index_lt_of_native {id : FunctionId} {body : Native}
    (h : (m.functionAt id).body = .native body) (hb : body ≠ .builtin .isyieldable) :
    id.index < m.functions.size := Nat.not_le.mp fun hn => by
  rw [functionAt_of_le hn] at h
  cases h
  exact hb rfl

theorem modifyTop_enterFrame (m : Machine) (t : ThreadId) (f : Frame) (g : Frame → Frame) :
    (m.enterFrame t f).modifyTop t g = m.enterFrame t (g f) := by
  unfold enterFrame modifyTop
  congr 1
  rw [modify_modify]
  refine m.modify_congr t ?_
  simp only [Function.comp_apply, Thread.mk.injEq, and_true, modifyFrames, Array.size_push,
    Nat.add_sub_cancel]
  apply Array.ext_getElem?
  intro i
  rw [Array.getElem?_modify, Array.getElem?_push, Array.getElem?_push]
  by_cases hi : i = (m.threadAt t).frames.size
  · simp [hi]
  · simp [hi, Ne.symm hi]

theorem leaveFrame_enterFrame (hf : f.captured = []) : (m.enterFrame t f).leaveFrame t = m := by
  have hc : ((m.enterFrame t f).frameAt t).captured = [] := by
    rw [frameAt, enterFrame, threadAt_modify]
    split
    · rw [Array.back?_push, Option.getD_some, hf]
    · next h =>
      rw [threadAt, Array.getD_eq_getD_getElem?, Array.getElem?_eq_none (by simpa using h)]
      rfl
  have ht : (m.threads.modify t.index fun th => { th with frames := th.frames.push f }).modify t.index
      (fun th => { th with frames := th.frames.pop }) = m.threads := by
    rw [modify_modify]
    refine m.modify_same t ?_
    simp
  rw [leaveFrame, hc]
  unfold enterFrame at ht ⊢
  simp only [ht]
  rfl

end Machine

namespace Exec

variable (re : Reentry)

/-- Starts a function with arguments that have been taken off the stack. -/
def launch (f : FunctionId) (args : List Value) (wanted : Int) (site : CallSite) : Exec Bool := do
  let limits ← read Machine.limits
  if limits.callDepth < (← frameCount) then fault .frameOverflow
  match (← read (·.functionAt f)).body with
  | .bytecode p =>
    if limits.stackSize < p.registers + spareSlots then fault .frameOverflow
    pushFrame (bytecodeFrame f p args wanted site)
    return true
  | .native body => callNative re f body args wanted site

def callValue (callee : Value) (args : List Value) (wanted : Int) (site : CallSite) : Exec Bool :=
  callTarget chainLimit callee args >>= fun p => launch re p.1 p.2 wanted site

def takeCall (nargs : Nat) : Exec (FunctionId × List Value) := do
  let args ← popMany nargs
  let callee ← pop
  callTarget chainLimit callee args

theorem enter_eq (nargs : Nat) (wanted : Int) (site : CallSite) :
    enter re nargs wanted site = (takeCall nargs >>= fun p => launch re p.1 p.2 wanted site) := by
  unfold enter takeCall
  refine Eq.trans ?_ (bind_assoc ..).symm
  refine bind_congr fun args => Eq.trans ?_ (bind_assoc ..).symm
  rfl

theorem launch_eq (f : FunctionId) (args : List Value) (wanted : Int) (site : CallSite)
    (m : Machine) : launch re f args wanted site m =
      if m.limits.callDepth < m.frameCount then fault .frameOverflow m
      else match (m.functionAt f).body with
        | .bytecode p =>
          if m.limits.stackSize < p.registers + spareSlots then fault .frameOverflow m
          else (do pushFrame (bytecodeFrame f p args wanted site); return true) m
        | .native body => callNative re f body args wanted site m := by
  unfold launch
  simp only [run_bind, run_read, run_frameCount, run_ite, Outcome.andThen_done]
  split
  · rfl
  · split
    · next h =>
      simp only [h, run_ite]
      split <;> rfl
    · next h => simp only [h]

@[simp] theorem run_pushFrame (f : Frame) (m : Machine) :
    pushFrame f m = .done () (m.enterFrame m.running f) := rfl

def endNative (depth results : Nat) (wanted : Int) : Exec Bool := do
  truncateFrames (depth + 1)
  endFrame results wanted
  return false

/-- What becomes of a call of a native function that fails or yields in a frame at a level. -/
def failNative {α : Type} (level : Nat) (wanted : Int) (site : CallSite) (guarded : Bool) :
    Error → Exec α
  | .yield => do
    if guarded then
      truncateFrames (level + 1)
    else
      truncateFrames level
      suspendCall wanted site
    raise .yield
  | e => do
    truncateFrames level
    raise e

theorem run_endNative (depth results : Nat) (wanted : Int) (m : Machine) (h : 1 < m.frameCount)
    (hd : depth < m.frameCount) :
    ∃ us, Upvalue.Closes m.upvalues us ∧ endNative depth results wanted m = .done false
      ((m.cut m.running depth us).modifyTop m.running (·.pushAll
        (adjust (((m.thread.frames[depth]?).getD default).topValues results) wanted))) := by
  obtain ⟨us, hu, he⟩ := run_truncateFrames (depth + 1) m
  have hf : (m.cut m.running (depth + 1) us).frame = (m.thread.frames[depth]?).getD default :=
    Machine.frameAt_cut h hd
  have hs : (m.cut m.running (depth + 1) us).frameCount = depth + 1 := by
    have hs : ((m.cut m.running (depth + 1) us).threadAt m.running).frames.size =
      min (depth + 1) m.frameCount := Machine.size_cut h
    exact hs.trans (Nat.min_eq_left hd)
  obtain ⟨us', hu', he'⟩ := run_endFrame results wanted (m.cut m.running (depth + 1) us)
  refine ⟨us', hu.trans hu', ?_⟩
  rw [hs, Nat.add_sub_cancel, hf] at he'
  have hc := m.cut_cut m.running us us' (Nat.le_succ depth)
  simp only [endNative, run_bind, he, Outcome.andThen_done, he', run_pure]
  rw [← hc]
  rfl

theorem callNative_passing {f : FunctionId} {body : Native} {args : List Value} {wanted : Int}
    {site : CallSite} {m : Machine} {F : Frame} {n : Nat}
    (hi : re.invoke body (m.enterFrame m.running (nativeFrame f args wanted site)) =
      .done n (m.enterFrame m.running F)) (hF : F.captured = []) :
    ∃ vs, callNative re f body args wanted site m = (do pushAdjusted vs wanted; return false) m := by
  have hs : (m.enterFrame m.running F).frameCount =
      (m.enterFrame m.running (nativeFrame f args wanted site)).frameCount := by
    rw [← m.modifyTop_enterFrame m.running (nativeFrame f args wanted site) fun _ => F]
    exact Machine.size_modifyTop ..
  have hl : ((m.enterFrame m.running F).modifyTop m.running (·.drop n)).leaveFrame m.running = m := by
    rw [Machine.modifyTop_enterFrame]
    exact Machine.leaveFrame_enterFrame hF
  refine ⟨(m.enterFrame m.running F).frame.topValues n, ?_⟩
  simp only [callNative, run_bind, run_pushFrame, Outcome.andThen_done, run_frameCount,
    run_attempt_done hi, run_read, hs, run_ite, Nat.lt_irrefl, decide_false, Bool.and_false,
    Bool.false_eq_true, if_false, truncateFrames_of_le (Nat.le_of_eq hs), endFrame, run_popMany,
    popFrame_eq]
  exact congrArg (fun m' => (pushAdjusted _ wanted m').andThen fun _ => pure false) hl

theorem run_suspendCall (wanted : Int) (site : CallSite) (m : Machine) :
    suspendCall wanted site m = .done () (m.leftOpen wanted site) := rfl

theorem callNative_eq (f : FunctionId) (body : Native) (args : List Value) (wanted : Int)
    (site : CallSite) (m : Machine) (h : m.running.index < m.threads.size) :
    callNative re f body args wanted site m =
      match re.invoke body (m.enterFrame m.running (nativeFrame f args wanted site)) with
      | .done n m' =>
        if (m'.isGuarded m.frameCount && m.frameCount + 1 < m'.frameCount) = true then .done true m'
        else endNative m.frameCount n wanted m'
      | .raised e m' => failNative m.frameCount wanted site (m'.isGuarded m.frameCount) e m'
      | .exhausted => .exhausted := by
  have hd : (m.enterFrame m.running (nativeFrame f args wanted site)).frameCount =
      m.frameCount + 1 := by
    change ((m.enterFrame m.running _).threadAt m.running).frames.size = _
    rw [Machine.enterFrame, m.threadAt_modify_there h]
    exact Array.size_push ..
  simp only [callNative, run_bind, run_pushFrame, Outcome.andThen_done, run_frameCount, hd]
  cases he : re.invoke body (m.enterFrame m.running (nativeFrame f args wanted site)) with
  | done n m' =>
    rw [run_attempt_done he]
    cases hg : m'.isGuarded m.frameCount with
    | false =>
      simp only [Outcome.andThen_done, run_read, run_bind, Nat.add_sub_cancel, hg, run_frameCount]
      rfl
    | true =>
      by_cases hc : m.frameCount + 1 < m'.frameCount
      · simp only [Outcome.andThen_done, run_read, run_bind, Nat.add_sub_cancel, hg, run_frameCount,
          hc, run_ite]
        rfl
      · simp only [Outcome.andThen_done, run_read, run_bind, Nat.add_sub_cancel, hg, run_frameCount,
          hc, run_ite]
        rfl
  | raised e m' =>
    rw [run_attempt_raised he]
    cases e with
    | yield =>
      simp only [Outcome.andThen_done, run_read, run_bind, Nat.add_sub_cancel]
      cases m'.isGuarded m.frameCount <;> rfl
    | _ => rfl
  | exhausted =>
    rw [run_attempt_exhausted he]
    rfl

end Exec
end LuaMachine
