import LuaMachine.Call.Protected
import LuaMachine.Proofs.Run
import LuaMachine.Proofs.Frame.Intact

namespace LuaMachine

theorem getElem?_take {α : Type} (xs : Array α) (n i : Nat) :
    (xs.take n)[i]? = if i < n then xs[i]? else none := by
  rw [Array.take_eq_extract, Array.getElem?_extract]
  by_cases h : i < n
  · by_cases hs : i < xs.size
    · rw [if_pos (by omega), if_pos h, Nat.zero_add]
    · rw [if_neg (by omega), if_pos h, Array.getElem?_eq_none (by omega)]
  · rw [if_neg (by omega), if_neg h]

theorem size_take {α : Type} (xs : Array α) (n : Nat) : (xs.take n).size = min n xs.size := by
  rw [Array.take_eq_extract, Array.size_extract, Nat.sub_zero]

theorem take_size {α : Type} (xs : Array α) : xs.take xs.size = xs := by
  apply Array.ext_getElem?
  intro i
  rw [getElem?_take]
  split
  · rfl
  · rw [Array.getElem?_eq_none (by omega)]

def Upvalue.Closes (us us' : Array Upvalue) : Prop :=
  ∀ i : Nat, us'[i]? = us[i]? ∨ ∃ v, us'[i]? = some (.closed v)

theorem Upvalue.Closes.refl (us : Array Upvalue) : Closes us us := fun _ => .inl rfl

theorem Upvalue.Closes.trans {us us' us'' : Array Upvalue} (h : Closes us us')
    (h' : Closes us' us'') : Closes us us'' := by
  intro i
  rcases h' i with he | hc
  · rw [he]
    exact h i
  · exact .inr hc

theorem Upvalue.Closes.set (us : Array Upvalue) (i : Nat) (v : Value) :
    Closes us (us.setIfInBounds i (.closed v)) := by
  intro j
  rw [Array.getElem?_setIfInBounds]
  by_cases h : i = j
  · subst h
    by_cases hs : i < us.size
    · exact .inr ⟨v, by simp [hs]⟩
    · exact .inl (by simp [hs])
  · exact .inl (by simp [h])

namespace Machine

/-- All but the lowest `n` frames of a thread are gone, and some open upvalues are closed. -/
def cut (m : Machine) (t : ThreadId) (n : Nat) (us : Array Upvalue) : Machine :=
  { m with
    upvalues := us
    threads := m.threads.modify t.index fun th => { th with frames := th.frames.take n } }

/-- The uppermost `n` frames of a thread are gone. -/
def shed (m : Machine) (t : ThreadId) (n : Nat) (us : Array Upvalue) : Machine :=
  { m with
    upvalues := us
    threads := m.threads.modify t.index fun th =>
      { th with frames := th.frames.take (th.frames.size - n) } }

variable {m : Machine} {t : ThreadId} {n : Nat} {us : Array Upvalue}

theorem shed_eq (m : Machine) (t : ThreadId) (n : Nat) (us : Array Upvalue) :
    m.shed t n us = m.cut t ((m.threadAt t).frames.size - n) us := by
  unfold shed cut
  congr 1
  exact m.modify_congr t rfl

theorem modify_modify (m : Machine) (t : ThreadId) (f g : Thread → Thread) :
    (m.threads.modify t.index f).modify t.index g = m.threads.modify t.index (g ∘ f) := by
  apply Array.ext_getElem?
  intro i
  simp only [Array.getElem?_modify]
  split
  · cases m.threads[i]? <;> rfl
  · rfl

theorem shed_shed (m : Machine) (t : ThreadId) (n k : Nat) (us us' : Array Upvalue) :
    (m.shed t n us).shed t k us' = m.shed t (n + k) us' := by
  have h : (m.threads.modify t.index fun th =>
        { th with frames := th.frames.take (th.frames.size - n) }).modify t.index
        (fun th => { th with frames := th.frames.take (th.frames.size - k) }) =
      m.threads.modify t.index fun th =>
        { th with frames := th.frames.take (th.frames.size - (n + k)) } := by
    rw [modify_modify]
    refine m.modify_congr t ?_
    simp only [Function.comp_apply, Thread.mk.injEq, and_true]
    apply Array.ext_getElem?
    intro j
    simp only [getElem?_take, size_take]
    by_cases hj : j < (m.threadAt t).frames.size - (n + k)
    · rw [if_pos (by omega), if_pos (by omega), if_pos hj]
    · rw [if_neg hj, if_neg (by omega)]
  unfold shed
  rw [h]

theorem aliased_cut (hu : Upvalue.Closes m.upvalues us) {t' : ThreadId} {i s : Nat}
    (h : (m.cut t n us).Aliased t' i s) : m.Aliased t' i s := by
  obtain ⟨u, hs⟩ := h
  refine ⟨u, ?_⟩
  rcases hu u.index with he | ⟨v, hv⟩
  · exact he ▸ hs
  · cases hv.symm.trans hs

theorem threadAt_cut_there (h : t.index < m.threads.size) :
    (m.cut t n us).threadAt t = { m.threadAt t with frames := (m.threadAt t).frames.take n } :=
  threadAt_modify_there m h _

theorem threadAt_cut (h : 1 < (m.threadAt t).frames.size) :
    (m.cut t n us).threadAt t = { m.threadAt t with frames := (m.threadAt t).frames.take n } :=
  threadAt_cut_there (m.index_lt h)

theorem intact_cut (hs : t.index < m.threads.size) (hu : Upvalue.Closes m.upvalues us) {k : Nat}
    (hk : k ≤ n) : Intact t k m (m.cut t n us) where
  functions := List.prefix_rfl
  aliases _ _ _ := aliased_cut hu
  frames i hi f hf := by
    refine ⟨f, ?_, .refl⟩
    rw [threadAt_cut_there hs, getElem?_take, if_pos (by omega), hf]

theorem intact_modifyTop (hn : n < (m.threadAt t).frames.size) (g : Frame → Frame) :
    Intact t n m (m.modifyTop t g) where
  functions := List.prefix_rfl
  aliases _ _ _ ha := ha
  frames i hi f hf := by
    refine ⟨f, ?_, .refl⟩
    rw [modifyTop, threadAt_modify]
    split
    · rw [modifyFrames, Array.getElem?_modify, if_neg (by omega), hf]
    · exact hf

theorem cut_cut (m : Machine) (t : ThreadId) {n k : Nat} (us us' : Array Upvalue) (h : k ≤ n) :
    (m.cut t n us).cut t k us' = m.cut t k us' := by
  unfold cut
  congr 1
  rw [modify_modify]
  refine m.modify_congr t ?_
  simp only [Function.comp_apply, Thread.mk.injEq, and_true]
  apply Array.ext_getElem?
  intro j
  simp only [getElem?_take]
  by_cases hk : j < k
  · rw [if_pos hk, if_pos hk, if_pos (by omega)]
  · rw [if_neg hk, if_neg hk]

theorem size_cut (h : 1 < (m.threadAt t).frames.size) :
    ((m.cut t n us).threadAt t).frames.size = min n (m.threadAt t).frames.size := by
  rw [threadAt_cut h]
  exact size_take ..

theorem cut_all (h : (m.threadAt t).frames.size ≤ n) : m.cut t n m.upvalues = m := by
  have hf : (m.threadAt t).frames.take n = (m.threadAt t).frames := by
    apply Array.ext_getElem?
    intro i
    rw [getElem?_take]
    split
    · rfl
    · rw [Array.getElem?_eq_none (by omega)]
  rw [cut, m.modify_same t (by rw [hf])]

theorem frameAt_cut (h : 1 < (m.threadAt t).frames.size) (hn : n < (m.threadAt t).frames.size) :
    (m.cut t (n + 1) us).frameAt t = ((m.threadAt t).frames[n]?).getD default := by
  unfold frameAt
  rw [threadAt_cut h, Array.back?, size_take, getElem?_take,
    show min (n + 1) (m.threadAt t).frames.size - 1 = n by omega, if_pos (by omega)]

theorem modifyTop_shed (m : Machine) (t : ThreadId) (g : Frame → Frame) (n : Nat)
    (us : Array Upvalue) : (m.modifyTop t g).shed t (n + 1) us = m.shed t (n + 1) us := by
  unfold shed modifyTop
  congr 1
  rw [modify_modify]
  refine m.modify_congr t ?_
  simp only [Function.comp_apply, Thread.mk.injEq, and_true, modifyFrames, Array.size_modify]
  apply Array.ext_getElem?
  intro j
  simp only [getElem?_take, Array.getElem?_modify]
  by_cases hj : j < (m.threadAt t).frames.size - (n + 1)
  · rw [if_pos hj, if_pos hj, if_neg (by omega)]
  · rw [if_neg hj, if_neg hj]

theorem cut_modifyTop (m : Machine) (t : ThreadId) (g : Frame → Frame) (us : Array Upvalue) :
    (m.modifyTop t g).cut t ((m.threadAt t).frames.size - 1) us =
      m.cut t ((m.threadAt t).frames.size - 1) us := by
  have hs := m.modifyTop_shed t g 0 us
  rwa [shed_eq, shed_eq, size_modifyTop] at hs

theorem modifyTop_modifyTop (m : Machine) (t : ThreadId) (g g' : Frame → Frame) :
    (m.modifyTop t g).modifyTop t g' = m.modifyTop t (g' ∘ g) := by
  unfold modifyTop
  congr 1
  rw [modify_modify]
  refine m.modify_congr t ?_
  simp only [Function.comp_apply, Thread.mk.injEq, and_true, modifyFrames, Array.size_modify]
  apply Array.ext_getElem?
  intro j
  simp only [Array.getElem?_modify]
  split
  · rw [Option.map_map]
  · rfl

theorem getElem?_top (h : (m.threadAt t).frames.size = n + 1) :
    (m.threadAt t).frames[n]? = some (m.frameAt t) := by
  have hn : n < (m.threadAt t).frames.size := by omega
  rw [frameAt, Array.back?, h, Nat.add_sub_cancel, Array.getElem?_eq_getElem hn]
  rfl

theorem frameAt_modifyTop_there (ht : t.index < m.threads.size) (h : 0 < (m.threadAt t).frames.size)
    (g : Frame → Frame) : (m.modifyTop t g).frameAt t = g (m.frameAt t) := by
  unfold frameAt modifyTop
  rw [m.threadAt_modify_there ht, Array.back?, modifyFrames, Array.size_modify,
    Array.getElem?_modify, if_pos rfl, Array.back?]
  have hs : (m.threadAt t).frames.size - 1 < (m.threadAt t).frames.size := by omega
  rw [Array.getElem?_eq_getElem hs]
  rfl

theorem frameAt_modifyTop_self (h : 1 < (m.threadAt t).frames.size) (g : Frame → Frame) :
    (m.modifyTop t g).frameAt t = g (m.frameAt t) :=
  frameAt_modifyTop_there (m.index_lt h) (Nat.zero_lt_of_lt h) g

end Machine

namespace Exec

theorem closes_closeAll (m : Machine) (l : List (Nat × UpvalueId)) :
    Upvalue.Closes m.upvalues (m.closeAll l).upvalues := by
  have h : ∀ (us : Array Upvalue) (value : UpvalueId → Value), Upvalue.Closes us
      (l.foldl (fun us p => us.setIfInBounds p.2.index (.closed (value p.2))) us) := by
    induction l with
    | nil => exact fun us _ => .refl us
    | cons p l ih => exact fun us value => (Upvalue.Closes.set us _ _).trans (ih _ value)
  exact h m.upvalues m.upvalueValue

theorem shed_one (m : Machine) (t : ThreadId) (us : Array Upvalue) :
    ({ m with
      upvalues := us
      threads := m.threads.modify t.index fun th => { th with frames := th.frames.pop } } : Machine) =
      m.shed t 1 us := by
  unfold Machine.shed
  congr 1
  refine m.modify_congr t ?_
  simp only [Thread.mk.injEq, and_true]
  apply Array.ext_getElem?
  intro j
  rw [getElem?_take, Array.getElem?_pop]

theorem popFrame_eq (m : Machine) : popFrame m = .done () (m.leaveFrame m.running) := by
  have hf : m.frame.captured.filter (0 ≤ ·.1) = m.frame.captured := by simp
  rw [popFrame, run_bind, run_closeFrom]
  split
  · next hc =>
    have hl : m.frame.captured = [] := List.isEmpty_iff.mp hc
    rw [Machine.leaveFrame, show (m.frameAt m.running).captured = [] from hl]
    rfl
  · rw [Machine.closedFrom, show (m.frameAt m.running).captured.filter (0 ≤ ·.1) =
      (m.frameAt m.running).captured from hf]
    have hs := (m.closeAll (m.frameAt m.running).captured).modifyTop_shed m.running
      (fun f => { f with captured := f.captured.filter (·.1 < 0) }) 0
      (m.closeAll (m.frameAt m.running).captured).upvalues
    rw [← shed_one, ← shed_one] at hs
    exact congrArg (Outcome.done ()) hs

theorem run_popFrame (m : Machine) :
    ∃ us, Upvalue.Closes m.upvalues us ∧ popFrame m = .done () (m.shed m.running 1 us) :=
  ⟨(m.closeAll m.frame.captured).upvalues, closes_closeAll m _, by
    rw [popFrame_eq, ← shed_one]
    rfl⟩

theorem run_popFrames (n : Nat) (m : Machine) :
    ∃ us, Upvalue.Closes m.upvalues us ∧ popFrames n m = .done () (m.shed m.running n us) := by
  induction n generalizing m with
  | zero =>
    refine ⟨m.upvalues, .refl _, congrArg (Outcome.done ()) ?_⟩
    have h : m.threads.modify m.running.index
        (fun th => { th with frames := th.frames.take (th.frames.size - 0) }) = m.threads :=
      m.modify_same m.running (by rw [Nat.sub_zero, take_size])
    rw [Machine.shed, h]
  | succ n ih =>
    obtain ⟨us, hu, he⟩ := run_popFrame m
    obtain ⟨us', hu', he'⟩ := ih (m.shed m.running 1 us)
    refine ⟨us', hu.trans hu', ?_⟩
    rw [popFrames, run_bind, he, Outcome.andThen_done, he', Nat.add_comm]
    exact congrArg (Outcome.done ()) (Machine.shed_shed ..)

theorem run_truncateFrames (depth : Nat) (m : Machine) :
    ∃ us, Upvalue.Closes m.upvalues us ∧
      truncateFrames depth m = .done () (m.cut m.running depth us) := by
  obtain ⟨us, hu, he⟩ := run_popFrames (m.frameCount - depth) m
  refine ⟨us, hu, ?_⟩
  rw [truncateFrames, run_bind, run_frameCount, Outcome.andThen_done, he, Machine.shed_eq]
  refine congrArg (Outcome.done ()) ?_
  unfold Machine.cut
  congr 1
  refine m.modify_congr _ ?_
  simp only [Thread.mk.injEq, and_true]
  apply Array.ext_getElem?
  intro j
  simp only [getElem?_take, Machine.frameCount, Machine.thread]
  by_cases hj : j < depth
  · by_cases hs : j < (m.threadAt m.running).frames.size
    · rw [if_pos (by omega), if_pos hj]
    · rw [if_neg (by omega), if_pos hj, Array.getElem?_eq_none (by omega)]
  · rw [if_neg (by omega), if_neg hj]

theorem truncateFrames_of_le (h : m.frameCount ≤ n) : truncateFrames n m = .done () m := by
  rw [truncateFrames, run_bind, run_frameCount, Outcome.andThen_done, Nat.sub_eq_zero_of_le h]
  rfl

theorem endFrame_eq (n : Nat) (wanted : Int) (m : Machine) : endFrame n wanted m = .done ()
    ((m.cut m.running (m.frameCount - 1)
        ((m.modifyTop m.running (·.drop n)).closeAll
          (m.modifyTop m.running (·.drop n)).frame.captured).upvalues).modifyTop
      m.running (·.pushAll (adjust (m.frame.topValues n) wanted))) := by
  have hp := (popFrame_eq (m.modifyTop m.running (·.drop n))).trans (congrArg (Outcome.done ())
    ((shed_one ..).trans ((m.modifyTop_shed m.running _ 0 _).trans (m.shed_eq m.running 1 _))))
  rw [endFrame]
  simp only [run_bind, Outcome.andThen_done, run_popMany, hp, run_pushAdjusted]
  rfl

theorem run_endFrame (n : Nat) (wanted : Int) (m : Machine) :
    ∃ us, Upvalue.Closes m.upvalues us ∧
      endFrame n wanted m = .done () ((m.cut m.running (m.frameCount - 1) us).modifyTop m.running
        (·.pushAll (adjust (m.frame.topValues n) wanted))) :=
  ⟨_, closes_closeAll (m.modifyTop m.running (·.drop n)) _, endFrame_eq n wanted m⟩

theorem leave_eq_endFrame (first : Nat) (m : Machine) : leave first m =
    (endFrame (m.frame.top - first) m.frame.wanted m).andThen fun _ => pure m.frame.site := rfl

theorem topValues_sub (f : Frame) (n : Nat) : f.topValues (f.top - (f.top - n)) = f.topValues n := by
  have h : min (f.top - (f.top - n)) f.top = min n f.top := by omega
  unfold Frame.topValues
  rw [h]

theorem leave_of_endFrame {n : Nat} {m m' : Machine}
    (h : endFrame n m.frame.wanted m = .done () m') :
    leave (m.frame.top - n) m = .done m.frame.site m' := by
  have hd : m.modifyTop m.running (·.drop (m.frame.top - (m.frame.top - n))) =
      m.modifyTop m.running (·.drop n) :=
    Machine.modifyTop_congr (congrArg m.frame.setTop (by omega) : m.frame.drop _ = m.frame.drop n)
  rw [leave_eq_endFrame, endFrame_eq, topValues_sub, hd, ← endFrame_eq, h, Outcome.andThen_done,
    run_pure]

theorem leave_eq (first : Nat) (m : Machine) : leave first m = .done m.frame.site
    ((m.cut m.running (m.frameCount - 1)
        ((m.modifyTop m.running (·.drop (m.frame.top - first))).closeAll
          (m.modifyTop m.running (·.drop (m.frame.top - first))).frame.captured).upvalues).modifyTop
      m.running (·.pushAll (adjust (m.frame.topValues (m.frame.top - first)) m.frame.wanted))) := by
  rw [leave_eq_endFrame, endFrame_eq, Outcome.andThen_done, run_pure]

theorem run_leave (first : Nat) (m : Machine) :
    ∃ us, Upvalue.Closes m.upvalues us ∧
      leave first m = .done m.frame.site ((m.cut m.running (m.frameCount - 1) us).modifyTop m.running
        (·.pushAll (adjust (m.frame.topValues (m.frame.top - first)) m.frame.wanted))) :=
  ⟨_, closes_closeAll (m.modifyTop m.running (·.drop (m.frame.top - first))) _, leave_eq first m⟩

theorem leave_uncaptured (h : m.frame.captured = []) : leave 0 m = .done m.frame.site
    ((m.cut m.running (m.frameCount - 1) m.upvalues).modifyTop m.running
      (·.pushAll (adjust (m.frame.topValues m.frame.top) m.frame.wanted))) := by
  have hc : (m.modifyTop m.running (·.drop (m.frame.top - 0))).frame.captured = [] := by
    rcases m.frameAt_modifyTop m.running (·.drop (m.frame.top - 0)) with hf | hf
    · exact (congrArg Frame.captured hf).trans h
    · exact (congrArg Frame.captured hf).trans h
  rw [leave_eq, hc]
  rfl

end Exec
end LuaMachine
