import LuaMachine.Proofs.Limits.Depth
import LuaMachine.Proofs.Suspension.Progress

namespace LuaMachine

open Machine Exec Relation

/-- A function is before one of its instructions. It has just been entered, or the instruction before
is completed. -/
inductive Host.Arrives (host : Host) : Machine → Prop
  | entered {m : Machine} (f : FunctionId) (p : Prototype) (args : List Value) (wanted : Int)
      (site : CallSite) : m.Awake → m.thread.pending = none →
      host.Arrives (m.enterFrame m.running (bytecodeFrame f p args wanted site))
  | completed {fuel stop : Nat} {m m' : Machine} {p : Point} : host.Arrives m →
      Point.Moves (host.reentry fuel) stop (.running m) p →
      host.Completes m.frameCount m' fuel stop p → host.Arrives m'

def Machine.Captured (m : Machine) (s : Nat) : Prop := m.Aliased m.running (m.frameCount - 1) s

/-- How the instructions of a thread outlast the yields of their metamethods. -/
structure Host.OutlastsYields (host : Host) : Prop where
  arrives : host.Honest → ∀ {m : Machine}, host.Arrives m → m.Between m.running m.frameCount
  surfaces : ∀ {fuel inner nargs : Nat} {source : Option ThreadId} {m₀ m₁ y : Machine}
      {start : Option CallSite},
    m₀.Resumable source nargs →
    (if m₀.thread.status == .yield then continueCall (host.reentry (fuel + 1)) nargs
      else startBody (host.reentry (fuel + 1)) nargs) (m₀.resumed source) =
        host.dispatch (fuel + 1) 1 start m₁ →
    host.Comes inner (.failing .yield y) fuel 1 (.start m₁ start) → y.running = m₀.running →
    resume (host.reentry (fuel + 1)) source nargs m₀ ≠ .exhausted →
    ∃ r k, resume (host.reentry (fuel + 1)) source nargs m₀ = .done (.yield, k) r ∧ y.Surfaces r
  continues : ∀ {fuel nargs : Nat} {source : Option ThreadId} {r : Machine} {call : PendingCall},
    r.Resumable source nargs → r.thread.status = .yield → r.thread.pending = some call →
    resume (host.reentry fuel) source nargs r =
      (attempt (host.dispatch fuel 1 (some call.site)) (r.continued source nargs call)).andThen
        (r.surrender source)
  /-- What an instruction does without a yield is a dialogue with its metamethods. -/
  direct : host.Honest → ∀ {fuel : Nat} {m m₁ m' : Machine} {i : Instruction} {e : Extension},
    host.Arrives m → fetch m = .done i m₁ → i.extension? = some e →
    execute (host.reentry fuel) m = .done none m' →
    ∃ answers, Dialogue ((host.reentry fuel).Answers m.Captured) (inquireFor i e m₁) answers
      (.done none m')
  /-- So is all that it does until it is completed, with yields. -/
  completes : host.Honest → ∀ {fuel stop : Nat} {m m₁ m' : Machine} {i : Instruction}
      {e : Extension} {p : Point},
    host.Arrives m → fetch m = .done i m₁ → i.extension? = some e →
    Point.Moves (host.reentry fuel) stop (.running m) p →
    host.Completes m.frameCount m' fuel stop p →
    ∃ answers, Dialogue host.Answers (inquireFor i e m₁) answers (.done none m')
  /-- If the metamethods give the same answers without a yield, then the instruction is completed at
  once, with the same registers and top, and the function goes on at the same place. What a
  concatenation puts together is on the stack: above its top nothing outlasts a call. -/
  survives : host.Honest → ∀ {re : Reentry} {m m₁ m' m'' : Machine} {i : Instruction}
      {e : Extension} {answers answers' : List Machine},
    host.Arrives m → fetch m = .done i m₁ → i.extension? = some e →
    (e = .concat → i.b ≤ m.frame.top ∧ i.c ≤ m.frame.top) →
    Dialogue host.Answers (inquireFor i e m₁) answers (.done none m') →
    Dialogue (re.Answers m.Captured) (inquireFor i e m₁) answers' (.done none m'') →
    List.Forall₂ (SameAnswer m.Captured) answers answers' →
    execute re m = .done none m'' ∧ m'.frame.Alike m''.frame

section Survival

variable {host : Host} {fuel stop nargs : Nat} {m m₁ m' y : Machine} {i : Instruction} {e : Extension}
  {source : Option ThreadId}

theorem Host.Arrives.between (hh : host.Honest) (ha : host.Arrives m) :
    m.Between m.running m.frameCount := by
  induction ha with
  | @entered m f p args wanted site hm hp =>
    have hl : Landed True m.running m.frameCount m.thread.counts m False m :=
      ⟨.refl .., hm.there, hm.positive, rfl, hm.parked, hm.status, rfl,
        fun _ => ⟨rfl, False.elim, .inl hp⟩⟩
    have hx := hl.enterFrame (bytecodeFrame f p args wanted site)
    have hr := Runs.ofLanded (hx.ready rfl) trivial rfl hx.kept.one_lt_size
    refine ⟨hr, rfl, rfl, ?_⟩
    have ht : (m.enterFrame m.running (bytecodeFrame f p args wanted site)).threadAt m.running = _ :=
      m.threadAt_modify_there hm.there _
    change ((m.enterFrame m.running (bytecodeFrame f p args wanted site)).frameAt m.running).negated = _
    rw [frameAt, ht, Array.back?_push]
    rfl
  | completed _ hq hc ih =>
    have hm := hc.between hh ih hq
    rw [hm.running, hm.frameCount]
    exact hm

theorem Machine.Surfaces.of_unwound {m₀ : Machine} (hu : y.Unwound m₁) (hr : y.running = m₀.running) :
    ∃ r k, m₀.surrender source (.error .yield) m₁ = .done (.yield, k) r ∧ y.Surfaces r := by
  let y₁ : Machine := { m₁ with held := (m₀.below source).held }
  have he : m₀.surrender source (.error .yield) m₁ = _ := run_endResume (settleResume_yielded y₁)
  exact ⟨_, _, he, m₀, source, m₁, _, hu, hu.running.trans hr, he⟩

theorem Machine.restarts {r : Machine} {call : PendingCall} (re : Reentry)
    (source : Option ThreadId) (nargs : Nat) (hs : r.thread.status = .yield)
    (hp : r.thread.pending = some call) :
    (if r.thread.status == .yield then continueCall re nargs else startBody re nargs)
        (r.resumed source) =
      re.dispatch 1 (some call.site) (r.continued source nargs call) := by
  obtain ⟨hr, -, -, hpe⟩ := r.thread_resumed source
  have hc := continueCall_eq re nargs (hpe.trans hp)
  rw [hr] at hc
  rw [if_pos (beq_iff_eq.mpr hs), hc]
  rfl

theorem Machine.Resumable.continues {r : Machine} {call : PendingCall} (re : Reentry)
    (h : r.Resumable source nargs) (hs : r.thread.status = .yield) (hp : r.thread.pending = some call) :
    resume re source nargs r = (attempt (re.dispatch 1 (some call.site))
      (r.continued source nargs call)).andThen (r.surrender source) := by
  rw [h.resume_eq, attempt, restarts re source nargs hs hp]
  rfl

theorem Point.moves_delivering {re : Reentry} {site : CallSite} {p : Point} (hn : stop < m.frameCount)
    (hs : site ≠ .host) (h : (accept re site m).point? = some p) :
    Point.Moves re stop (.delivering site m) p :=
  (if_neg (not_or.mpr ⟨Nat.not_le.mpr hn, hs⟩)).trans h

end Survival

/-- Yields of metamethods make no difference to the instructions that have called them. -/
theorem Host.outlastsYields (host : Host) : host.OutlastsYields := by
  constructor
  case arrives => exact fun hh _ ha => ha.between hh
  case surfaces =>
    intro fuel inner nargs source m₀ m₁ y start hres hstart hcomes hr hx
    have hd : host.dispatch (fuel + 1) 1 start m₁ ≠ .exhausted := fun hd => hx (by
      rw [hres.resume_eq, run_attempt_exhausted (hstart.trans hd)]
      rfl)
    obtain ⟨m₂, hd, hu⟩ := hcomes.yields Nat.one_pos rfl hd
    obtain ⟨r, k, he, hs⟩ := Surfaces.of_unwound hu hr
    refine ⟨r, k, ?_, hs⟩
    rw [hres.resume_eq, run_attempt_raised (hstart.trans hd)]
    exact he
  case continues => exact fun h hs hp => h.continues _ hs hp
  case direct =>
    intro hh fuel m m₁ m' i e ha hf he hx
    have hm := ha.between hh
    have hfollows := follows_execute (host.reentry fuel) hm.runs.inner hf he hm.negated
    rw [hx] at hfollows
    obtain ⟨answers, x, -, -, -, hd, hs, -, -⟩ :=
      hfollows.dialogue (Host.replies hh fuel) he (hm.attends hf) (hm.inquires hf e)
    cases hs
    exact ⟨answers, hd⟩
  case completes =>
    intro hh fuel stop m m₁ m' i e p ha hf he hp hx
    have hm := ha.between hh
    obtain ⟨answers, hd, -⟩ := hx.dialogue hh hm.runs.inner
      (follows_execute _ hm.runs.inner hf he hm.negated) hp (hm.attends hf) (hm.inquires hf e) he
    exact ⟨answers, hd⟩
  case survives =>
    intro hh re m m₁ m' m'' i e answers answers' ha hf he hc hd hd' hs
    have hm := ha.between hh
    have hone : 1 < m.frameCount := hm.runs.inner
    refine ⟨hd'.carriedOut (follows_execute re hone hf he hm.negated) (hm.inquires hf e) he, ?_⟩
    have htop : m₁.frame.top = m.frame.top := by
      obtain ⟨rfl, -⟩ := Exec.fetched hone hf
      exact (congrArg Frame.top (frameAt_modifyTop_self hone _)).trans rfl
    have hx := hd.answered hh (hm.attends hf) (hm.inquires hf e) he
    refine Dialogue.determined (fun _ _ _ h => h) (fun _ _ _ h => h.choose_spec.2.2) he hx hd' hs
      (.refl _) (hm.inquires hf e) (hm.inquires hf e) fun hcat => ?_
    have := hc hcat
    omega

def Outcome.machine {α : Type} : Outcome α → Machine
  | .done _ m | .raised _ m => m
  | .exhausted => default

def Outcome.value? {α : Type} : Outcome α → Option α
  | .done a _ => some a
  | _ => none

def Outcome.yields {α : Type} : Outcome α → Bool
  | .raised .yield _ => true
  | _ => false

theorem Outcome.eq_done {α : Type} {x : Outcome α} {a : α} (h : x.value? = some a) :
    x = .done a x.machine := by
  cases x <;> cases h
  rfl

theorem Outcome.eq_yield {α : Type} {x : Outcome α} (h : x.yields = true) :
    x = .raised .yield x.machine := by
  cases x with
  | raised e m =>
    cases e <;> cases h
    rfl
  | _ => cases h

def Host.patient : Host := { scripts := #[[.perform (.call (.yield 2))]] }

def Host.prompt : Host := { scripts := #[[.perform (.stack (.push (.int 8))), .ret 1]] }

def Prototype.weaver : Prototype :=
  { registers := 3, parameters := 3, code := #[.ofABC .concat 0 0 2] }

/-- A coroutine that is about to concatenate booleans, which have a metamethod for that. -/
def Machine.weaving : Machine :=
  { Machine.new {} with
    tables := #[{}, {}, { entries := [(.string Event.concat.key, .function ⟨0⟩)] }]
    metatables := [(.boolean, ⟨2⟩)]
    functions := #[{ body := .native (.script 0) }, { body := .bytecode .weaver }]
    threads := #[{ isMain := true, parked := false, phase := .normal },
      { parked := false, frames := #[
        { window := #[.function ⟨1⟩, .bool true, .bool true, .bool false], top := 4 }] }]
    running := ⟨1⟩ }

namespace Machine

def woven : Machine := ((weaving.resumed none).taken 3).enterFrame ⟨1⟩
  (bytecodeFrame ⟨1⟩ .weaver [.bool true, .bool true, .bool false] (-1) .host)

def wovenInquiry : Outcome (Option Question) :=
  inquireFor (.ofABC .concat 0 0 2) .concat (fetch woven).machine

/-- The coroutine has yielded, after it has been resumed with 8 a number of times. -/
def weavingPaused : Nat → Machine
  | 0 => (resume (Host.patient.reentry 3) none 3 weaving).machine
  | n + 1 => (resume (Host.patient.reentry 3) none 1
      ((weavingPaused n).modifyTop (weavingPaused n).running (·.pushAll [.int 8]))).machine

def weavingAgain (n : Nat) : Machine :=
  ((weavingPaused n).modifyTop (weavingPaused n).running (·.pushAll [.int 8])).continued none 1
    { site := .metamethod, wanted := 1, base := 3 }

end Machine

theorem Machine.not_captured_woven (s : Nat) : ¬woven.Captured s := fun ⟨_, hu⟩ =>
  Option.some_ne_none _ (hu.symm.trans Array.getElem?_empty)

theorem Host.prompt_answers {m : Machine} {answers : List Machine}
    (hd : Dialogue ((Host.prompt.reentry 2).Answers woven.Captured) wovenInquiry answers (.done none m)) :
    List.Forall₂ (SameAnswer woven.Captured) [weavingAgain 0, weavingAgain 1] answers := by
  obtain ⟨b₀, m₁, b₁, m₂, hq₀, hb₀, hq₁, hb₁, hq₂, hv₀, hv₁⟩ : ∃ b₀ m₁ b₁ m₂,
      wovenInquiry = .done (some ⟨2, 1, woven.held⟩) wovenInquiry.machine ∧
      callYieldable (Host.prompt.reentry 2) 2 1 wovenInquiry.machine = .done () b₀ ∧
      conclude { b₀ with held := woven.held } = .done (some ⟨2, 1, woven.held⟩) m₁ ∧
      callYieldable (Host.prompt.reentry 2) 2 1 m₁ = .done () b₁ ∧
      conclude { b₁ with held := woven.held } = .done none m₂ ∧
      b₀.frame.peek = (weavingAgain 0).frame.peek ∧ b₁.frame.peek = (weavingAgain 1).frame.peek :=
    ⟨_, _, _, _, Outcome.eq_done (by decide +kernel), Outcome.eq_done (by decide +kernel),
      Outcome.eq_done (by decide +kernel), Outcome.eq_done (by decide +kernel),
      Outcome.eq_done (by decide +kernel), by decide +kernel, by decide +kernel⟩
  obtain ⟨_, _, rfl, ⟨_, hb, rfl, -⟩, hd⟩ := hd.asked hq₀
  obtain rfl := (Outcome.done.inj (hb₀.symm.trans hb)).2
  obtain ⟨_, _, rfl, ⟨_, hb, rfl, -⟩, hd⟩ := hd.asked hq₁
  obtain rfl := (Outcome.done.inj (hb₁.symm.trans hb)).2
  obtain rfl := hd.ended hq₂
  exact .cons ⟨hv₀, fun s hs => absurd hs (not_captured_woven s)⟩
    (.cons ⟨hv₁, fun s hs => absurd hs (not_captured_woven s)⟩ .nil)

/-- Both pairs of the concatenation call the metamethod that yields. The coroutine is resumed with 8
twice, and comes to the registers that it gets from a metamethod which returns 8 at once. -/
theorem Host.outlastsYields_weaving : ∃ m' m'' : Machine,
    resume (Host.patient.reentry 3) none 3 weaving = .done (.yield, 2) (weavingPaused 0) ∧
    resume (Host.patient.reentry 3) none 1
        ((weavingPaused 0).modifyTop (weavingPaused 0).running (·.pushAll [.int 8])) =
      .done (.yield, 2) (weavingPaused 1) ∧
    conclude (weavingAgain 1) = .done none m' ∧ Host.patient.Arrives m' ∧
    execute (Host.prompt.reentry 2) woven = .done none m'' ∧ m'.frame.Alike m''.frame ∧
    m''.frame.values = [.int 8, .int 8, .bool false] := by
  have hu := Host.patient.outlastsYields
  have hv := Host.prompt.outlastsYields
  have hh : Host.patient.Honest := List.not_mem_nil
  have hh' : Host.prompt.Honest := List.not_mem_nil
  have he : (Instruction.ofABC .concat 0 0 2).extension? = some .concat := rfl
  have hf : fetch woven = .done (.ofABC .concat 0 0 2) (fetch woven).machine :=
    Outcome.eq_done (by decide +kernel)
  have ha (host : Host) : host.Arrives woven :=
    .entered _ _ _ _ _ ⟨by decide, rfl, by decide, by decide⟩ rfl
  have hone : 1 < woven.frameCount := by decide
  have hq₀ : wovenInquiry = .done (some ⟨2, 1, woven.held⟩) wovenInquiry.machine :=
    Outcome.eq_done (by decide +kernel)
  have hq₁ : conclude (weavingAgain 0) =
      .done (some ⟨2, 1, woven.held⟩) (conclude (weavingAgain 0)).machine :=
    Outcome.eq_done (by decide +kernel)
  have hq₂ : conclude (weavingAgain 1) = .done none (conclude (weavingAgain 1)).machine :=
    Outcome.eq_done (by decide +kernel)
  have hr₀ : resume (Host.patient.reentry 3) none 3 weaving = .done (.yield, 2) (weavingPaused 0) :=
    Outcome.eq_done (by decide +kernel)
  have hr₁ : resume (Host.patient.reentry 3) none 1
        ((weavingPaused 0).modifyTop (weavingPaused 0).running (·.pushAll [.int 8])) =
      .done (.yield, 2) (weavingPaused 1) :=
    Outcome.eq_done (by decide +kernel)
  -- the coroutine is started, and yields in the metamethod for its upper pair
  obtain ⟨y₀, hy₀, hrun₀⟩ : ∃ y, callYieldable (Host.patient.reentry 2) 2 1 wovenInquiry.machine =
      .raised .yield y ∧ y.running = ⟨1⟩ :=
    ⟨_, Outcome.eq_yield (by decide +kernel), by decide +kernel⟩
  have hfollows₀ := follows_execute (Host.patient.reentry 2) hone hf he (by decide)
  have hmove₀ : Point.Moves (Host.patient.reentry 2) 1 (.running woven) _ :=
    congrArg Outcome.point? (hfollows₀.yields hq₀ hy₀)
  have hcomes₀ : Host.patient.Comes 2 _ 2 1 (.start woven none) := .here (.single hmove₀)
  have hres₀ : weaving.Resumable none 3 := ⟨by decide, .inr ⟨by decide, by decide⟩, by decide⟩
  have hstart : startBody (Host.patient.reentry 3) 3 (weaving.resumed none) =
      Host.patient.dispatch 3 1 none woven := by
    have henter : enter (Host.patient.reentry 3) 3 (-1) .host (weaving.resumed none) =
      .done true woven := rfl
    rw [startBody, run_bind, henter]
    rfl
  obtain ⟨r, k, hr, hs₀⟩ := hu.surfaces hres₀ ((congrFun (if_neg (by decide)) _).trans hstart)
    hcomes₀ hrun₀ fun h => by cases hr₀.symm.trans h
  obtain rfl : weavingPaused 0 = r := (Outcome.done.inj (hr₀.symm.trans hr)).2
  have hp₀ : (weavingPaused 0).Dormant ⟨.metamethod, 1, 3⟩ := by constructor <;> decide +kernel
  obtain ⟨hres₁, hstatus, hpending, hc₀⟩ := hp₀.resumable [.int 8]
  have hd₀ : Host.patient.Descends woven.frameCount .metamethod (weavingAgain 0) 2 1 _ 2 1 :=
    .ofYield hs₀ hc₀ (by decide +kernel)
  -- it goes on, and yields in the one for the lower pair
  obtain ⟨y₁, hy₁, hrun₁⟩ : ∃ y,
      callYieldable (Host.patient.reentry 2) 2 1 (conclude (weavingAgain 0)).machine =
        .raised .yield y ∧ y.running = ⟨1⟩ :=
    ⟨_, Outcome.eq_yield (by decide +kernel), by decide +kernel⟩
  have hone₀ : 1 < (weavingAgain 0).frameCount := by decide +kernel
  have hi₀ : currentInstruction? (weavingAgain 0) = some (.ofABC .concat 0 0 2) := by decide +kernel
  have hfollows₁ := follows_accept (Host.patient.reentry 2) hone₀ hi₀ he
  have hmove₁ : Point.Moves (Host.patient.reentry 2) 1 (.delivering .metamethod (weavingAgain 0)) _ :=
    Point.moves_delivering hone₀ (by decide) (congrArg Outcome.point? (hfollows₁.yields hq₁ hy₁))
  have hcomes₁ : Host.patient.Comes 2 _ 2 1 (.start (weavingAgain 0) (some .metamethod)) :=
    .here (.single hmove₁)
  obtain ⟨r, k, hr, hs₁⟩ := hu.surfaces hres₁ (restarts _ none 1 hstatus hpending) hcomes₁ hrun₁
    fun h => by cases hr₁.symm.trans h
  obtain rfl : weavingPaused 1 = r := (Outcome.done.inj (hr₁.symm.trans hr)).2
  have hp₁ : (weavingPaused 1).Dormant ⟨.metamethod, 1, 3⟩ := by constructor <;> decide +kernel
  obtain ⟨-, -, -, hc₁⟩ := hp₁.resumable [.int 8]
  have hd₁ : Host.patient.Descends woven.frameCount .metamethod (weavingAgain 1) 2 1 _ 2 1 :=
    .ofYield hs₁ hc₁ (by decide +kernel)
  -- then the instruction is completed
  have hone₁ : 1 < (weavingAgain 1).frameCount := by decide +kernel
  have hi₁ : currentInstruction? (weavingAgain 1) = some (.ofABC .concat 0 0 2) := by decide +kernel
  have hfollows₂ := follows_accept (Host.patient.reentry 2) hone₁ hi₁ he
  have hmove₂ : Point.Moves (Host.patient.reentry 2) 1 (.delivering .metamethod (weavingAgain 1)) _ :=
    Point.moves_delivering hone₁ (by decide) (congrArg Outcome.point? (hfollows₂.ends hq₂))
  have hend : (conclude (weavingAgain 1)).machine.frameCount = woven.frameCount := by decide +kernel
  have harrives : Host.patient.Arrives (conclude (weavingAgain 1)).machine :=
    .completed (ha _) hmove₀ (.waited rfl hd₀ hmove₁ (.waited rfl hd₁ hmove₂ (.done hend)))
  have hlevel₀ : wovenInquiry.machine.frameCount = woven.frameCount := by decide +kernel
  have hlevel₁ : (conclude (weavingAgain 0)).machine.frameCount = woven.frameCount := by decide +kernel
  have hd : Dialogue Host.patient.Answers wovenInquiry [weavingAgain 0, weavingAgain 1]
      (.done none (conclude (weavingAgain 1)).machine) := by
    rw [hq₀]
    refine .step (.ofDescends hy₀ hlevel₀ hd₀) ?_
    rw [hq₁]
    refine .step (.ofDescends hy₁ hlevel₁ hd₁) ?_
    rw [← hq₂]
    exact .refl _
  -- the other metamethod answers at once
  have hx : execute (Host.prompt.reentry 2) woven =
      .done none (execute (Host.prompt.reentry 2) woven).machine :=
    Outcome.eq_done (by decide +kernel)
  obtain ⟨answers, hd'⟩ := hv.direct hh' (ha _) hf he hx
  have hsame := prompt_answers hd'
  obtain ⟨-, halike⟩ := hu.survives hh (ha _) hf he (fun _ => by decide) hd hd' hsame
  exact ⟨_, _, hr₀, hr₁, hq₂, harrives, hx, halike, by decide +kernel⟩

end LuaMachine
