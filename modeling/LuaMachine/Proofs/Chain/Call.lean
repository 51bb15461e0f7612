import LuaMachine.Proofs.Suspension.Inquiry
import LuaMachine.Proofs.Suspension.Native

namespace LuaMachine

open Machine Exec

namespace Exec

variable (re : Reentry)

def apply (f : FunctionId) (args : List Value) (wanted : Int) (site : CallSite) : Exec Unit := do
  let depth ← frameCount
  if ← launch re f args wanted site then re.dispatch depth none

end Exec

namespace Machine

structure Active (m : Machine) : Prop where
  there : m.running.index < m.threads.size
  positive : 0 < m.frameCount
  parked : m.thread.parked = false
  status : m.thread.status ≠ .yield

/-- A function is about to be started with arguments for an operation: the stack is as it was, the
arguments are kept besides other values, and another call is in progress. -/
structure Applies (m : Machine) (args kept : List Value) (m₁ : Machine) : Prop where
  tables : m₁.tables = m.tables
  running : m₁.running = m.running
  frameCount : m₁.frameCount = m.frameCount
  values : m₁.frame.values = m.frame.values
  held : m₁.held = args ++ (kept ++ m.held)
  counts : m₁.thread.counts = m.thread.counts.deeper (!m.prototype.isSome)

def answerSite (m : Machine) : CallSite := if m.prototype.isSome then .metamethod else .host

end Machine

/-- The outcome of an operation that ends with the call of a function: it answers with the results that
the function has come to its end with, or passes an error on. -/
inductive Outcome.Concludes {α : Type} (answer : List Value → α) (wanted : Int) (m₁ : Machine) :
    Outcome Unit → Outcome α → Prop where
  | done {vs : List Value} {m m' : Machine} :
      Finished False m₁.running m₁.frameCount m₁.thread.counts vs wanted m₁ m →
      m'.tables = m.tables → Concludes answer wanted m₁ (.done () m) (.done (answer vs) m')
  | raised (e : Error) {m m' : Machine} : m'.tables = m.tables →
      Concludes answer wanted m₁ (.raised e m) (.raised e m')
  | exhausted : Concludes answer wanted m₁ .exhausted .exhausted

/-- An operation ends with the call of a function, and makes no other one. -/
structure Reentry.CallsOnce {α : Type} (re : Reentry) (m : Machine) (f : FunctionId)
    (args kept : List Value) (wanted : Nat) (answer : List Value → α) (x : Outcome α) : Prop where
  refused : m.limits.nesting ≤ m.thread.nesting →
    ∃ m', x = .raised (.fault .hostOverflow m.location) m' ∧ m'.tables = m.tables
  called : m.thread.nesting < m.limits.nesting → ∃ m₁, m.Applies args kept m₁ ∧
    (apply re f args wanted m.answerSite m₁).Concludes answer wanted m₁ x

variable {m : Machine} {f : FunctionId} {h : Value} {args kept : List Value}

namespace Machine

section Fields

variable (m : Machine) (h : Value) (args kept : List Value) (host : Bool)

@[simp] theorem tables_deeper : (m.deeper host).tables = m.tables := rfl
@[simp] theorem tables_posed : (m.posed h args kept).tables = m.tables := rfl
@[simp] theorem held_deeper : (m.deeper host).held = m.held := rfl
@[simp] theorem held_posed : (m.posed h args kept).held = args ++ (kept ++ m.held) := rfl

end Fields

theorem Active.landed (hm : m.Active) :
    Landed False m.running m.frameCount m.thread.counts m False m :=
  ⟨.refl .., hm.there, hm.positive, rfl, hm.parked, hm.status, rfl, False.elim⟩

theorem frame_deeper (m : Machine) (host : Bool) : (m.deeper host).frame = m.frame := by
  change (Array.back? ((m.deeper host).threadAt m.running).frames).getD default = m.frame
  rw [frames_deeper]
  rfl

end Machine

namespace Landed

theorem posed {manners : Manners} {n : Nat} {c : Counts}
    (hm : Landed manners m.running n c m False m) (h : Value) (args kept : List Value) :
    Landed manners m.running n c (m.posed h args kept) False (m.posed h args kept) := by
  have hx := (hm.top (·.push h)).top (·.pushAll args)
  have hy : Landed manners m.running n c _ False (m.posed h args kept) :=
    { hx with intact := intact_of_frames rfl rfl rfl }
  exact hy.refl

theorem frame_modifyTop {manners : Manners} {yielding : Prop} {n : Nat} {c : Counts} {m₁ : Machine}
    (hm : Landed manners m.running n c m₁ yielding m) (g : Frame → Frame) :
    (m.modifyTop m.running g).frame = g m.frame :=
  frameAt_modifyTop_there hm.there (by rw [hm.size]; exact hm.positive) g

theorem frame_posed {manners : Manners} {n : Nat} {c : Counts}
    (hm : Landed manners m.running n c m False m) (h : Value) (args kept : List Value) :
    (m.posed h args kept).frame = (m.frame.push h).pushAll args := by
  have hf : ((m.modifyTop m.running (·.push h)).modifyTop m.running (·.pushAll args)).frame =
      (m.modifyTop m.running (·.push h)).frame.pushAll args := (hm.top (·.push h)).frame_modifyTop _
  rw [hm.frame_modifyTop] at hf
  exact hf

theorem frame_taken {manners : Manners} {n : Nat} {c : Counts}
    (hm : Landed manners m.running n c m False m) (k : Nat) :
    (m.taken k).frame = (m.frame.drop k).drop 1 := by
  have hf : ((m.modifyTop m.running (·.drop k)).modifyTop m.running (·.drop 1)).frame =
      (m.modifyTop m.running (·.drop k)).frame.drop 1 := (hm.top (·.drop k)).frame_modifyTop _
  rw [hm.frame_modifyTop] at hf
  exact hf

end Landed

theorem Frame.values_posed (f : Frame) (h : Value) (args : List Value) :
    (((f.push h).pushAll args).drop args.length).values = f.values ++ [h] ∧
      ((((f.push h).pushAll args).drop args.length).drop 1).values = f.values := by
  have hv : (((f.push h).pushAll args).drop args.length).values = f.values ++ [h] := by
    rw [values_drop, values_pushAll, values_push]
    refine List.take_left' ?_
    rw [List.length_append, length_values]
    exact (Nat.add_sub_cancel (f.top + 1) args.length).symm
  refine ⟨hv, ?_⟩
  rw [values_drop, hv]
  refine List.take_left' ?_
  rw [length_values]
  have ht := congrArg List.length hv
  rw [length_values, List.length_append, length_values] at ht
  exact (Nat.sub_eq_of_eq_add ht).symm

namespace Exec

theorem callTarget_function (n : Nat) (f : FunctionId) (args : List Value) (m : Machine) :
    callTarget n (.function f) args m = .done (f, args) m := by
  cases n <;> rfl

theorem run_enterAndRun (re : Reentry) (wanted : Int) (site : CallSite)
    (ht : m.frame.topValues args.length = args)
    (hp : (m.modifyTop m.running (·.drop args.length)).frame.peek = .function f)
    (hn : (m.taken args.length).frameCount = m.frameCount) :
    enterAndRun re args.length wanted site m = apply re f args wanted site (m.taken args.length) := by
  rw [enterAndRun, apply, run_bind, run_frameCount, Outcome.andThen_done, run_bind, run_enter, ht, hp,
    callValue, run_bind, callTarget_function, Outcome.andThen_done, run_bind, run_frameCount, hn]
  rfl

theorem nested_posed {re : Reentry} (hre : re.Shelters False m.running) (hm : m.Active)
    (f : FunctionId) (args kept : List Value) (wanted : Int) (site : CallSite)
    (hl : m.thread.nesting < m.limits.nesting) : ∃ m₁, m.Applies args kept m₁ ∧
      nested (!m.prototype.isSome) (enterAndRun re args.length wanted site)
          (m.posed (.function f) args kept) =
        (apply re f args wanted site m₁).change (·.shallower (!m.prototype.isSome)) ∧
      (apply re f args wanted site m₁).Called False m₁.running m₁.frameCount m₁.thread.counts site
        wanted m₁ := by
  have hx := hm.landed.posed (.function f) args kept
  have hd := (hx.deeper rfl (!m.prototype.isSome)).refl
  have hf := (frame_deeper (m.posed (.function f) args kept) (!m.prototype.isSome)).trans
    (hm.landed.frame_posed (.function f) args kept)
  have hl' : ¬(m.posed (.function f) args kept).limits.nesting ≤
      (m.posed (.function f) args kept).thread.nesting := by
    have hn : (m.posed (.function f) args kept).thread.nesting = m.thread.nesting :=
      congrArg Counts.nesting hx.counts
    rw [hn]
    exact Nat.not_le.mpr hl
  rw [nested_eq, if_neg hl']
  have hr : ((m.posed (.function f) args kept).deeper (!m.prototype.isSome)).running = m.running := rfl
  have ht : ((m.posed (.function f) args kept).deeper (!m.prototype.isSome)).tables = m.tables := by
    simp only [tables_deeper, tables_posed]
  have hh : ((m.posed (.function f) args kept).deeper (!m.prototype.isSome)).held =
      args ++ (kept ++ m.held) := by
    simp only [held_deeper, held_posed]
  generalize (m.posed (.function f) args kept).deeper (!m.prototype.isSome) = m₀ at hd hf hr ht hh ⊢
  rw [← hr] at hd hre
  have hv := m.frame.values_posed (.function f) args
  have hk := hd.taken rfl args.length
  have hn : (m₀.taken args.length).frameCount = m.frameCount := hk.frameCount rfl
  have hc : (m₀.taken args.length).thread.counts = m.thread.counts.deeper (!m.prototype.isSome) :=
    hk.counts
  have he : enterAndRun re args.length wanted site m₀ =
      apply re f args wanted site (m₀.taken args.length) := by
    refine run_enterAndRun re wanted site ?_ ?_ (hn.trans (hd.frameCount rfl).symm)
    · rw [hf, Frame.topValues_pushAll]
    · rw [hd.frame_modifyTop, hf, Frame.peek_eq, hv.1, List.getLast?_concat]
      rfl
  refine ⟨m₀.taken args.length, ⟨ht, hr, hn, ?_, hh, hc⟩, by rw [he], ?_⟩
  · rw [hd.frame_taken, hf, hv.2]
  · rw [hn, hc, ← he]
    exact called_enterAndRun hre args.length wanted site hd rfl

theorem prototype_posed (hm : m.Active) (h : Value) (args kept : List Value) :
    (m.posed h args kept).prototype = m.prototype := by
  rw [Machine.prototype, hm.landed.frame_posed]
  rfl

theorem location_posed (hm : m.Active) (h : Value) (args kept : List Value) :
    (m.posed h args kept).location = m.location := by
  rw [Machine.location, hm.landed.frame_posed]
  rfl

theorem raised_unwindTo (depth : Nat) (e : Error) (m : Machine) :
    ∃ m', (do unwindTo depth; raise e : Exec Unit) m = .raised e m' ∧ m'.tables = m.tables := by
  obtain ⟨us, -, he⟩ := run_truncateFrames (max depth 1) m
  exact ⟨m.cut m.running (max depth 1) us, by
    rw [run_bind, unwindTo, he, Outcome.andThen_done, run_raise], rfl⟩

theorem callTop_cases (re : Reentry) (nargs : Nat) (wanted : Int) (m : Machine) :
    match nested (!m.prototype.isSome) (enterAndRun re nargs wanted m.answerSite) m with
    | .done _ m₁ => callTop re nargs wanted m = .done () m₁
    | .raised e m₁ => ∃ m₂, callTop re nargs wanted m = .raised e m₂ ∧ m₂.tables = m₁.tables
    | .exhausted => callTop re nargs wanted m = .exhausted := by
  rw [callTop_eq, answerSite]
  cases m.prototype.isSome with
  | true =>
    change match nested false (enterAndRun re nargs wanted .metamethod) m with
      | .done _ m₁ => _
      | .raised e m₁ => _
      | .exhausted => _
    cases he : nested false (enterAndRun re nargs wanted .metamethod) m with
    | done a m₁ => exact he
    | raised e m₁ => exact ⟨m₁, he, rfl⟩
    | exhausted => exact he
  | false =>
    change match nested true (enterAndRun re nargs wanted .host) m with
      | .done _ m₁ => _
      | .raised e m₁ => _
      | .exhausted => _
    have hc := call_eq re nargs wanted m
    cases he : nested true (enterAndRun re nargs wanted .host) m with
    | done a m₁ =>
      rw [he] at hc
      exact hc
    | raised e m₁ =>
      rw [he] at hc
      obtain ⟨m₂, hr, ht⟩ := raised_unwindTo m.frameCount e m₁
      exact ⟨m₂, hc.trans hr, ht⟩
    | exhausted =>
      rw [he] at hc
      exact hc

end Exec

theorem Handed.held {honest : Prop} {t : ThreadId} {n : Nat} {c : Counts} {vs : List Value}
    {wanted : Int} {m₀ : Machine} (hm : Handed honest t n c vs wanted m₀ m) (held : List Value) :
    Handed honest t n c vs wanted m₀ { m with held } := by
  obtain ⟨m', rfl, hx⟩ := hm
  have hy : Landed honest t n c m' False { m' with held } :=
    { hx with intact := intact_of_frames rfl rfl rfl }
  exact ⟨{ m' with held }, rfl, hy.trans hx.intact⟩

section Calls

variable {α : Type} {re : Reentry} {wanted : Nat} {k : Exec α} {answer : List Value → α}

/-- What an operation does that calls a function and goes on with its results by `k`. -/
theorem callsOnce_posed (hre : re.Shelters False m.running) (hm : m.Active) (f : FunctionId)
    (args kept : List Value)
    (hk : ∀ c vs m₁ m₂,
      Handed False m.running m.frameCount c vs wanted m₁ m₂ → m₂.running = m.running →
      ∃ m₃, k m₂ = .done (answer vs) m₃ ∧ m₃.tables = m₂.tables) :
    re.CallsOnce m f args kept wanted answer
      ((((callTop re args.length wanted (m.posed (.function f) args kept)).change
        fun m' => { m' with held := kept ++ m.held }).andThen fun _ => k).change
          fun m' => { m' with held := m.held }) := by
  have hx := hm.landed.posed (.function f) args kept
  have hn : (m.posed (.function f) args kept).thread.nesting = m.thread.nesting :=
    congrArg Counts.nesting hx.counts
  have hc := callTop_cases re args.length wanted (m.posed (.function f) args kept)
  rw [answerSite, prototype_posed hm, ← answerSite] at hc
  constructor
  case refused =>
    intro hl
    rw [nested_eq, if_pos (by rw [hn]; exact hl), location_posed hm] at hc
    obtain ⟨m₂, he, ht⟩ := hc
    rw [he]
    exact ⟨_, rfl, ht⟩
  case called =>
    intro hl
    obtain ⟨m₁, ha, he, hd⟩ := nested_posed hre hm f args kept wanted m.answerSite hl
    rw [he] at hc
    refine ⟨m₁, ha, ?_⟩
    cases hy : apply re f args wanted m.answerSite m₁ with
    | done u m₂ =>
      rw [hy] at hc hd
      obtain ⟨hr, vs, hf⟩ := hd
      have hh := hf.handed
      rw [ha.counts] at hh
      have hs := hh.shallower hr
      rw [ha.running, ha.frameCount] at hs
      obtain ⟨m₃, hk₃, ht⟩ := hk _ _ _ _ (hs.held (kept ++ m.held)) (hr.trans ha.running)
      rw [hc]
      change Outcome.Concludes _ _ _ _ ((k _).change _)
      rw [hk₃]
      exact .done hf ht
    | raised e m₂ =>
      rw [hy] at hc
      obtain ⟨m₃, he, ht⟩ := hc
      rw [he]
      exact .raised e ht
    | exhausted =>
      rw [hy] at hc
      rw [hc]
      exact .exhausted

theorem adjust_one (vs : List Value) : adjust vs 1 = [vs.headD .nil] := by
  cases vs with
  | nil => rfl
  | cons v vs => simp [adjust]

theorem Handed.peek {t : ThreadId} {n : Nat} {c : Counts} {vs : List Value} {m₀ : Machine}
    (hm : Handed False t n c vs 1 m₀ m) (ht : m.running = t) : m.frame.peek = vs.headD .nil := by
  obtain ⟨m', rfl, hx⟩ := hm
  have hr : m'.running = t := ht
  subst hr
  rw [hx.frame_modifyTop, adjust_one, Frame.peek_pushAll]

theorem callsOnce_value (hre : re.Shelters False m.running) (hm : m.Active) (f : FunctionId)
    (args kept : List Value) : re.CallsOnce m f args kept 1 (·.headD .nil)
      (holding kept (callHandler re (.function f) args true) m) := by
  rw [run_holding, callHandler_eq]
  exact callsOnce_posed (k := pop) hre hm f args kept fun c vs m₁ m₂ hh hr =>
    ⟨m₂.modifyTop m₂.running (·.drop 1), by rw [run_pop, hh.peek hr], rfl⟩

theorem callsOnce_effect (hre : re.Shelters False m.running) (hm : m.Active) (f : FunctionId)
    (args kept : List Value) : re.CallsOnce m f args kept 0 (fun _ => ())
      (holding kept (discard (callHandler re (.function f) args false)) m) := by
  have ha (x : Outcome Unit) : ((x.andThen fun _ => if false then pop else pure .nil).andThen
      fun _ => pure ()) = x.andThen fun _ => pure () := by
    cases x <;> rfl
  rw [run_holding, run_discard, callHandler_eq, ha]
  exact callsOnce_posed (k := pure ()) hre hm f args kept fun c vs m₁ m₂ hh hr => ⟨m₂, rfl, rfl⟩

end Calls

end LuaMachine
