import LuaMachine.Proofs.Results

namespace LuaMachine

open Machine Exec

theorem Frame.topValues_pushAll (f : Frame) (vs : List Value) :
    (f.pushAll vs).topValues vs.length = vs := by
  have ht : (f.pushAll vs).top = f.values.length + vs.length := by
    rw [f.length_values]
    rfl
  rw [topValues_eq, ht, values_pushAll, Nat.add_sub_cancel, List.drop_left]

namespace Machine

def caller (m : Machine) : Frame := (m.thread.frames[m.frameCount - 2]?).getD default

/-- A yield has set out from a call of the thread's frame on top, with values for the resumer. -/
structure Suspends (m : Machine) (t : ThreadId) (f : Frame) (site : CallSite) (wanted : Int)
    (vs : List Value) : Prop where
  inner : 1 < (m.threadAt t).frames.size
  frame : m.frameAt t = f
  pending : (m.threadAt t).pending = some { site, wanted, base := f.top }
  transfer : (m.threadAt t).transfer = vs

end Machine

def Exec.yielding (k : Nat) : Exec Nat := do raise (← yieldError k)

def Exec.returning (vs : List Value) : Exec Nat := do
  pushAll vs
  return vs.length

variable {honest : Prop} {t : ThreadId} {n h k : Nat} {o : Origin} {m₀ m m' : Machine}
  {site : CallSite} {wanted : Int} {vs : List Value}

theorem yielding_yields (hy : yielding k m = .raised .yield m') :
    m' = handOver (m.modifyTop m.running (·.drop k)) (m.frame.topValues k) := by
  unfold yielding at hy
  rw [run_bind, yieldError_eq] at hy
  split at hy
  · cases hy
  · split at hy
    · cases hy
    · cases hy
      rfl

theorem frames_handOver (m : Machine) (vs : List Value) (t : ThreadId) :
    ((handOver m vs).threadAt t).frames = (m.threadAt t).frames := by
  rw [handOver, threadAt_modify]
  split <;> rfl

theorem threadAt_handOver (h : 1 < m.frameCount) (vs : List Value) :
    (handOver m vs).threadAt m.running = { m.thread with transfer := vs } :=
  m.threadAt_modify_self h _

/-- An ordinary native function has yielded: all that it has done to its thread is to take values off
its own stack. -/
theorem Solo.ofYield (hm : Solo honest t n h o m₀ t true (handOver (m.modifyTop t (·.drop k)) vs))
    (ht : m.running = t) :
    m.frameCount = n + 1 := by
  subst ht
  have hs := hm.size
  rwa [frames_handOver, size_modifyTop] at hs

theorem suspends_leftOpen (h : 1 < m.frameCount) (hp : m.thread.pending = none) (wanted : Int)
    (site : CallSite) :
    (m.leftOpen wanted site).Suspends m.running m.frame site wanted m.thread.transfer := by
  have ht : (m.leftOpen wanted site).threadAt m.running = _ := m.threadAt_modify_self h _
  have hf : (m.leftOpen wanted site).frameAt m.running = m.frame := by
    unfold frameAt
    rw [ht]
    rfl
  refine ⟨?_, hf, hf ▸ m.pending_leftOpen (m.index_lt h) hp wanted site, ?_⟩
  · rw [ht]
    exact h
  · rw [ht]
    rfl

theorem caller_eq {g : Frame → Frame} (ht : m.running = t) (hs : m.frameCount = n + 1) (hn : 0 < n)
    (hf : (m'.threadAt t).frames = ((m.modifyTop t g).threadAt t).frames) :
    ((m'.threadAt t).frames[n - 1]?).getD default = m.caller := by
  subst ht
  have hone : 1 < m.frameCount := by omega
  have hne : ¬(m.threadAt m.running).frames.size - 1 = n - 1 := by
    change ¬m.frameCount - 1 = n - 1
    omega
  rw [hf, m.threadAt_modifyTop hone, modifyFrames, Array.getElem?_modify, if_neg hne, caller, hs]
  rfl

theorem frameAt_cut_pred {us : Array Upvalue} (hs : (m.threadAt t).frames.size = n + 1)
    (hn : 0 < n) : (m.cut t n us).frameAt t = ((m.threadAt t).frames[n - 1]?).getD default := by
  obtain ⟨j, rfl⟩ : ∃ j, n = j + 1 := ⟨n - 1, by omega⟩
  exact frameAt_cut (by omega) (by omega)

theorem endNative_answers (results : Nat) (wanted : Int) (hs : m.frameCount = n + 1) (hn : 1 < n) :
    ∃ m', endNative n results wanted m = .done false m' ∧ m'.running = m.running ∧
      m'.frameCount = n ∧ m'.frame = ((m.thread.frames[n - 1]?).getD default).pushAll
        (adjust (m.frame.topValues results) wanted) := by
  have hone : 1 < m.frameCount := by omega
  have hf : m.thread.frames[n]? = some m.frame := getElem?_top hs
  obtain ⟨us, -, he⟩ := run_endNative n results wanted m hone (by omega)
  have hc : ((m.cut m.running n us).threadAt m.running).frames.size = n := by
    have hc : ((m.cut m.running n us).threadAt m.running).frames.size = min n m.frameCount :=
      size_cut hone
    omega
  rw [hf, Option.getD_some] at he
  refine ⟨_, he, rfl, (size_modifyTop ..).trans hc, ?_⟩
  have hx := frameAt_modifyTop_self (m := m.cut m.running n us) (hc ▸ hn)
    (·.pushAll (adjust (m.frame.topValues results) wanted))
  rw [frameAt_cut_pred hs (Nat.zero_lt_of_lt hn)] at hx
  exact hx

theorem failNative_suspends (wanted : Int) (site : CallSite)
    (hs : Solo honest t n h o m₀ t true m) (hh : honest) (ht : m.running = t) (hn : 1 < n) :
    ∃ m', (failNative n wanted site (m.isGuarded n) .yield m : Outcome Bool) =
        .raised .yield m' ∧ m'.running = t ∧
      m'.Suspends t (((m.threadAt t).frames[n - 1]?).getD default) site wanted
        (m.threadAt t).transfer := by
  subst ht
  have hg : m.isGuarded n = false := by
    have hg := hs.unguarded
    rw [isGuarded, Machine.thread]
    cases hf : (m.threadAt m.running).frames[n]? with
    | none => rfl
    | some f =>
      rw [hf] at hg
      exact congrArg Option.isSome (Option.some.inj hg)
  have hone := hs.shelter.one_lt_size
  obtain ⟨us, -, he⟩ := run_truncateFrames n m
  have hsize : 1 < (m.cut m.running n us).frameCount := by
    have hc : ((m.cut m.running n us).threadAt m.running).frames.size = _ := size_cut hone
    rw [hs.size] at hc
    change 1 < ((m.cut m.running n us).threadAt m.running).frames.size
    omega
  have hth : (m.cut m.running n us).thread = _ := threadAt_cut hone
  have hx := suspends_leftOpen hsize (by rw [hth]; exact hs.pending hh) wanted site
  have hf : (m.cut m.running n us).frame = _ := frameAt_cut_pred hs.size (Nat.zero_lt_of_lt hn)
  rw [hth, hf] at hx
  refine ⟨(m.cut m.running n us).leftOpen wanted site, ?_, rfl, hx⟩
  rw [hg]
  change ((truncateFrames n >>= fun _ => suspendCall wanted site >>= fun _ =>
    raise .yield) m : Outcome Bool) = _
  rw [run_bind, he, Outcome.andThen_done, run_bind, run_suspendCall]
  rfl

section Call

variable {re : Reentry} {f : FunctionId} {body : Native} {args : List Value} {m₁ : Machine}
  (hm : 1 < m.frameCount) (ht : m₁.running = m.running)
include hm ht

theorem callNative_suspends (hh : honest)
    (hi : re.invoke body (m.enterFrame m.running (nativeFrame f args wanted site)) =
      .raised .yield (handOver (m₁.modifyTop m₁.running (·.drop k)) vs))
    (hs : Solo honest m.running m.frameCount h o m₀ m.running true
      (handOver (m₁.modifyTop m₁.running (·.drop k)) vs)) :
    ∃ m', callNative re f body args wanted site m = .raised .yield m' ∧ m'.running = m.running ∧
      m'.Suspends m.running m₁.caller site wanted vs := by
  have hc := (ht ▸ hs).ofYield ht
  have hone : 1 < (m₁.modifyTop m₁.running (·.drop k)).frameCount := by
    have hs : (m₁.modifyTop m₁.running (·.drop k)).frameCount = m₁.frameCount := size_modifyTop ..
    omega
  have htrans : ((handOver (m₁.modifyTop m₁.running (·.drop k)) vs).threadAt m₁.running).transfer =
      vs := congrArg Thread.transfer (threadAt_handOver hone vs)
  have hframes : ((handOver (m₁.modifyTop m₁.running (·.drop k)) vs).threadAt m.running).frames =
      ((m₁.modifyTop m.running (·.drop k)).threadAt m.running).frames := by
    rw [frames_handOver, ht]
  have hcaller := caller_eq ht hc (Nat.zero_lt_of_lt hm) hframes
  obtain ⟨m', he, hr, hx⟩ := failNative_suspends wanted site hs hh ht hm
  rw [hcaller, ← ht, htrans, ht] at hx
  refine ⟨m', ?_, hr, hx⟩
  rw [callNative_eq re f body args wanted site m (m.index_lt hm), hi]
  exact he

theorem callNative_answers
    (hi : re.invoke body (m.enterFrame m.running (nativeFrame f args wanted site)) =
      .done vs.length (m₁.modifyTop m₁.running (·.pushAll vs)))
    (hc : m₁.frameCount = m.frameCount + 1) :
    ∃ m', callNative re f body args wanted site m = .done false m' ∧ m'.running = m.running ∧
      m'.frameCount = m.frameCount ∧ m'.frame = m₁.caller.pushAll (adjust vs wanted) := by
  have hone : 1 < m₁.frameCount := by omega
  have hsize : (m₁.modifyTop m₁.running (·.pushAll vs)).frameCount = m.frameCount + 1 :=
    (m₁.size_modifyTop ..).trans hc
  have hf : (m₁.modifyTop m₁.running (·.pushAll vs)).frame = m₁.frame.pushAll vs :=
    frameAt_modifyTop_self hone _
  have hframes : ((m₁.modifyTop m₁.running (·.pushAll vs)).threadAt m.running).frames =
      ((m₁.modifyTop m.running (·.pushAll vs)).threadAt m.running).frames := by rw [ht]
  have hcaller := caller_eq ht hc (Nat.zero_lt_of_lt hm) hframes
  obtain ⟨m', he, hr, hn, hx⟩ := endNative_answers vs.length wanted hsize hm
  rw [hf, Frame.topValues_pushAll] at hx
  refine ⟨m', ?_, hr.trans ht, hn, hx.trans ?_⟩
  · rw [callNative_eq re f body args wanted site m (m.index_lt hm), hi]
    dsimp only
    rw [if_neg (by simp [hsize]), he]
  · rw [← hcaller, ← ht]
    rfl

end Call

end LuaMachine
