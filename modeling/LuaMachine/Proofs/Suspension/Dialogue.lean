import LuaMachine.Proofs.Suspension.Completion

namespace LuaMachine

open Machine Exec

def Question.base (q : Question) (f : Frame) : Frame := (f.drop q.nargs).drop 1

/-- A question that the instruction puts in the second machine, having begun in the first one. The
frame below the question is of height `h`, and a concatenation is at one of the lowest `n` pairs. -/
structure Instruction.Poses (i : Instruction) (e : Extension) (n h : Nat) (m₀ : Machine) (q : Question)
    (m : Machine) : Prop where
  touches : m₀.Touches m
  inner : 1 < m.frameCount
  current : currentInstruction? m = some i
  wanted : q.wanted = 0 ∨ q.wanted = 1
  height : (q.base m.frame).top = h
  pair : e = .concat → q.wanted = 1 ∧ i.b ≤ m.frame.concatAt ∧ m.frame.concatAt < i.b + n
  negated : m.frame.negated = true → ∃ c, e = .compare c

/-- The instruction is done; no comparison is open in its frame. -/
structure Machine.Concluded (m₀ m : Machine) : Prop where
  running : m.running = m₀.running
  threads : ∃ g, m.threads = (m₀.modifyTop m₀.running g).threads
  negated : m.frame.negated = false

def Outcome.Inquires (i : Instruction) (e : Extension) (n h : Nat) (m₀ : Machine) :
    Outcome (Option Question) → Prop
  | .done (some q) m => i.Poses e n h m₀ q m
  | .done none m => m₀.Concluded m
  | .raised _ _ | .exhausted => True

variable {i : Instruction} {e : Extension} {n h : Nat} {m₀ m : Machine} {α : Type}

theorem Outcome.Inquires.mono {x : Outcome (Option Question)} {k : Nat}
    (hx : x.Inquires i e n h m₀) (hk : n ≤ k) : x.Inquires i e k h m₀ := by
  cases x with
  | done q? m =>
    cases q? with
    | none => exact hx
    | some q => exact { hx with pair := fun hc =>
        have ⟨hw, hle, hlt⟩ := hx.pair hc
        ⟨hw, hle, Nat.lt_of_lt_of_le hlt (Nat.add_le_add_left hk _)⟩ }
  | raised _ _ | exhausted => trivial

structure Machine.Inquiring (m₀ m : Machine) (i : Instruction) (h : Nat) : Prop where
  touches : m₀.Touches m
  inner : 1 < m.frameCount
  current : currentInstruction? m = some i
  height : m.frame.top = h

namespace Machine.Inquiring

theorem poses (hm : m₀.Inquiring m i h) (hn : m.frame.negated = true → ∃ c, e = .compare c)
    {wanted : Int}
    (hp : e = .concat → wanted = 1 ∧ i.b ≤ m.frame.concatAt ∧ m.frame.concatAt < i.b + n) (f : Value)
    (args kept : List Value) (hw : wanted = 0 ∨ wanted = 1) :
    i.Poses e n h m₀ ⟨args.length, wanted, m.held⟩ (m.posed f args kept) := by
  have hr := regained_posed hm.inner f args kept
  have hf := frame_posed hm.inner f args kept
  refine ⟨hm.touches.trans ⟨(·.pushAll args) ∘ (·.push f), args ++ (kept ++ m.held), ?_⟩,
    hr.inner hm.inner, hr.current.trans hm.current, hw, ?_, ?_, ?_⟩
  · rw [← modifyTop_modifyTop]
    rfl
  · rw [hf]
    change m.frame.top + 1 + args.length - args.length - 1 = h
    have hh := hm.height
    omega
  · rw [hf]
    exact hp
  · rw [hf]
    exact hn

theorem pursue {F : Finding α} {kept : List Value} {wanted : Int} {next : α → Exec (Option Question)}
    (hm : m₀.Inquiring m i h) (hn : m.frame.negated = true → ∃ c, e = .compare c)
    (hp : e = .concat → wanted = 1 ∧ i.b ≤ m.frame.concatAt ∧ m.frame.concatAt < i.b + n)
    (hw : wanted = 0 ∨ wanted = 1) (hF : ∀ a, (next a m).Inquires i e n h m₀) :
    (pursue kept wanted next F m).Inquires i e n h m₀ := by
  cases F with
  | value a => exact hF a
  | fault cause => trivial
  | handler f args => exact hm.poses hn hp f args kept hw

theorem concluded (hm : m₀.Inquiring m i h) {g : Frame → Frame} (hg : (g m.frame).negated = false) :
    m₀.Concluded (m.modifyTop m.running g) := by
  refine ⟨hm.touches.running, ?_, (congrArg Frame.negated (frameAt_modifyTop_self hm.inner g)).trans hg⟩
  obtain ⟨g₀, held, rfl⟩ := hm.touches
  refine ⟨g ∘ g₀, ?_⟩
  rw [← modifyTop_modifyTop]
  rfl

theorem modifyTop (hm : m₀.Inquiring m i h) {g : Frame → Frame}
    (hf : (g m.frame).function = m.frame.function) (hp : (g m.frame).pc = m.frame.pc)
    (ht : (g m.frame).top = m.frame.top) : m₀.Inquiring (m.modifyTop m.running g) i h :=
  ⟨hm.touches.trans (.modifyTop m g), inner_modifyTop hm.inner,
    (current_modifyTop hm.inner hf hp).trans hm.current,
    ((congrArg Frame.top (frameAt_modifyTop_self hm.inner g)).trans ht).trans hm.height⟩

variable (hm : m₀.Inquiring m i h)
include hm

theorem stores (he : e ≠ .concat) (hn : m.frame.negated = false) (F : Finding Value)
    (kept : List Value) : (Exec.pursue kept 1 (fun r => do setRegister i.a r; return none) F
      m).Inquires i e n h m₀ :=
  hm.pursue (fun ht => nomatch ht.symm.trans hn) (fun hc => absurd hc he) (.inr rfl)
    fun _ => hm.concluded hn

theorem assigns (he : e ≠ .concat) (hn : m.frame.negated = false) (v k x : Value) :
    (inquireAssign v k x m).Inquires i e n h m₀ :=
  hm.pursue (fun ht => nomatch ht.symm.trans hn) (fun hc => absurd hc he) (.inl rfl) fun t => by
    unfold putRaw
    cases Key.ofValue? k with
    | none => trivial
    | some k =>
      obtain ⟨g, held, rfl⟩ := hm.touches
      exact ⟨rfl, ⟨g, rfl⟩, hn⟩

theorem compares {c : Comparison} (hc : e = .compare c) (hn : m.frame.negated = false)
    (expected : Bool) (x y : Value) : (inquireCompare c expected x y m).Inquires i e n h m₀ := by
  subst hc
  rw [inquireCompare, run_bind, run_read, Outcome.andThen_done]
  cases hd : c == .le && m.isNegated x y with
  | false =>
    rw [if_neg Bool.false_ne_true]
    change (Exec.pursue [] 1 _ (m.compareFinding c x y) m).Inquires i _ n h m₀
    refine hm.pursue (fun _ => ⟨c, rfl⟩) (fun h => by cases h) (.inr rfl) fun r => ?_
    change Outcome.Inquires _ _ _ _ _ ((skipUnless r expected m).andThen _)
    rw [run_skipUnless]
    exact hm.concluded hn
  | true =>
    obtain ⟨hle, hneg⟩ := (Bool.and_eq_true _ _).mp hd
    obtain rfl : c = .le := by cases c <;> first | rfl | cases hle
    have hm' : m₀.Inquiring m.negating i h := hm.modifyTop rfl rfl rfl
    have hF := lessEqualFinding_negated (m := m.negating) hneg
    rw [if_pos rfl]
    change (Exec.pursue [] 1 _ (m.negating.lessEqualFinding x y) m.negating).Inquires i _ n h m₀
    rw [hF, binaryFinding]
    split
    · trivial
    · exact hm'.poses (fun _ => ⟨.le, rfl⟩) (fun h => by cases h) _ _ _ (.inr rfl)

omit hm in
theorem concats (hm : m₀.Inquiring m i h) (hn : m.frame.negated = false) :
    (inquireConcat i.a i.b n m).Inquires i e n h m₀ := by
  induction n generalizing m with
  | zero => exact hm.concluded hn
  | succ n ih =>
    rw [inquireConcat_succ]
    have hm₁ : m₀.Inquiring (m.atPair (i.b + n)) i h := hm.modifyTop rfl rfl rfl
    have hf : (m.atPair (i.b + n)).frame = { m.frame with concatAt := i.b + n } :=
      frameAt_modifyTop_self hm.inner _
    have hn₁ : (m.atPair (i.b + n)).frame.negated = false := (congrArg Frame.negated hf).trans hn
    refine hm₁.pursue (fun ht => nomatch ht.symm.trans hn₁) (fun _ => ?_) (.inr rfl) fun v => ?_
    · rw [hf]
      exact ⟨rfl, Nat.le_add_right .., Nat.lt_succ_self _⟩
    · have hx := ih (m := (m.atPair (i.b + n)).modifyTop (m.atPair (i.b + n)).running
        (·.setSlot (i.b + n) v)) (hm₁.modifyTop rfl rfl rfl)
        ((congrArg Frame.negated (frameAt_modifyTop_self hm₁.inner _)).trans hn₁)
      exact hx.mono (Nat.le_succ n)

end Machine.Inquiring

theorem Exec.Looks.inquires {x : Exec α} [hx : Looks x] {f : α → Exec (Option Question)}
    (hf : ∀ a, (f a m).Inquires i e n h m₀) : ((x >>= f) m).Inquires i e n h m₀ := by
  rw [run_bind]
  obtain ⟨a, ha⟩ | ⟨e, -, ha⟩ := hx.looks m
  · rw [ha]
    exact hf a
  · rw [ha]
    trivial

theorem Machine.Inquiring.inquires (hm : m₀.Inquiring m i h) (hn : m.frame.negated = false)
    (e : Extension) : (inquireFor i e m).Inquires i e (i.c - i.b) h m₀ := by
  cases e with
  | index u =>
    cases u with
    | true => exact Looks.inquires fun u => Looks.inquires fun v => Looks.inquires fun k =>
        hm.stores (by nofun) hn _ _
    | false => exact Looks.inquires fun v => Looks.inquires fun k => hm.stores (by nofun) hn _ _
  | method =>
    refine Looks.inquires fun v => Looks.inquires fun k => ?_
    have hm' : m₀.Inquiring (m.modifyTop m.running (·.setSlot (i.a + 1) v)) i h :=
      hm.modifyTop rfl rfl rfl
    exact hm'.stores (by nofun) ((congrArg Frame.negated (frameAt_modifyTop_self hm.inner _)).trans hn) _ _
  | assign u =>
    cases u with
    | true => exact Looks.inquires fun u => Looks.inquires fun v => Looks.inquires fun k =>
        Looks.inquires fun x => hm.assigns (by nofun) hn v k x
    | false => exact Looks.inquires fun v => Looks.inquires fun k => Looks.inquires fun x =>
        hm.assigns (by nofun) hn v k x
  | binary op => exact Looks.inquires fun x => Looks.inquires fun y => hm.stores (by nofun) hn _ _
  | unary op => exact Looks.inquires fun x => hm.stores (by nofun) hn _ _
  | length => exact Looks.inquires fun v => hm.stores (by nofun) hn _ _
  | concat => exact hm.concats hn
  | compare c => exact Looks.inquires fun x => Looks.inquires fun y => hm.compares rfl hn _ x y

theorem Exec.inquires_conclude (hone : 1 < m.frameCount) (hi : currentInstruction? m = some i)
    (he : i.extension? = some e) (hn : m.frame.negated = true → ∃ c, e = .compare c) :
    (conclude m).Inquires i e (m.frame.concatAt - i.b) (m.frame.top - 1) m := by
  have hf (g : Frame → Frame) : (m.modifyTop m.running g).frame = g m.frame :=
    frameAt_modifyTop_self hone g
  have hplain (hc : ∀ c, e ≠ .compare c) : m.frame.negated = false := by
    cases ht : m.frame.negated with
    | false => rfl
    | true => exact absurd (hn ht).choose_spec (hc _)
  rw [conclude_eq hi he]
  cases e with
  | concat =>
    have hm : m.Inquiring (m.modifyTop m.running (i.answered .concat)) i (m.frame.top - 1) :=
      ⟨.modifyTop m _, inner_modifyTop hone, (current_modifyTop hone rfl rfl).trans hi,
        congrArg Frame.top (hf _)⟩
    have hx := hm.concats (e := .concat) (n := m.frame.concatAt - i.b)
      ((congrArg Frame.negated (hf _)).trans (hplain nofun))
    change (inquireConcat i.a i.b ((m.modifyTop m.running (i.answered .concat)).frame.concatAt - i.b)
      (m.modifyTop m.running (i.answered .concat))).Inquires _ _ _ _ _
    rw [hf]
    exact hx
  | compare c => exact ⟨rfl, ⟨_, rfl⟩, congrArg Frame.negated (hf _)⟩
  | index u | method | assign u | binary op | unary op | length =>
    exact ⟨rfl, ⟨_, rfl⟩, (congrArg Frame.negated (hf _)).trans (hplain nofun)⟩

theorem Exec.concat_of_asks (hi : currentInstruction? m = some i) (he : i.extension? = some e)
    {q : Question} {m' : Machine} (hc : conclude m = .done (some q) m') : e = .concat := by
  rw [conclude_eq hi he] at hc
  cases e with
  | concat => rfl
  | _ => cases hc

/-- The metamethod of a question that has been put in the first machine has come to its end. Its
results are on top of the frame that has called it, where nothing else has changed but registers that
are captured. -/
structure Question.Answered (q : Question) (captured : Nat → Prop) (m m' : Machine) : Prop where
  running : m'.running = m.running
  frameCount : m'.frameCount = m.frameCount
  prototype : m'.prototype = m.prototype
  frame : ∃ f vs, (q.base m.frame).Kept captured f ∧ m'.frame = f.pushAll (adjust vs q.wanted)

theorem Question.Answered.regained {q : Question} {captured : Nat → Prop} {m' : Machine}
    (hm : q.Answered captured m m') : m.Regained m' := by
  obtain ⟨f, vs, hk, hf⟩ := hm.frame
  refine ⟨hm.running, hm.frameCount, ?_, hm.prototype⟩
  have hc : m'.frame.control = { f.control with top := m'.frame.top } := by
    rw [hf]
    rfl
  rw [hc, hk.1]
  rfl

/-- An inquiry goes on with answers, each of them given in a machine of its own. -/
inductive Dialogue (R : Question → Machine → Machine → Prop) :
    Outcome (Option Question) → List Machine → Outcome (Option Question) → Prop where
  | refl (x : Outcome (Option Question)) : Dialogue R x [] x
  | step {q : Question} {m m' : Machine} {answers : List Machine} {x : Outcome (Option Question)} :
      R q m m' → Dialogue R (conclude m') answers x →
      Dialogue R (.done (some q) m) (m' :: answers) x

theorem Dialogue.asked {R : Question → Machine → Machine → Prop} {q : Question} {m m' : Machine}
    {x : Outcome (Option Question)} {answers : List Machine} (hd : Dialogue R x answers (.done none m'))
    (hx : x = .done (some q) m) :
    ∃ m₁ rest, answers = m₁ :: rest ∧ R q m m₁ ∧ Dialogue R (conclude m₁) rest (.done none m') := by
  subst hx
  cases hd with
  | step hq hd => exact ⟨_, _, rfl, hq, hd⟩

theorem Dialogue.ended {R : Question → Machine → Machine → Prop} {m m' : Machine}
    {x : Outcome (Option Question)} {answers : List Machine} (hd : Dialogue R x answers (.done none m'))
    (hx : x = .done none m) : answers = [] := by
  subst hx
  cases hd
  rfl

def Reentry.Answers (re : Reentry) (captured : Nat → Prop) (q : Question) (m m' : Machine) : Prop :=
  ∃ m'', callYieldable re q.nargs q.wanted m = .done () m'' ∧ m' = { m'' with held := q.held } ∧
    q.Answered captured m m'

theorem Question.Answered.inquires {q : Question} {captured : Nat → Prop} {m' : Machine}
    (hm : q.Answered captured m m') (hp : i.Poses e n h m₀ q m) (he : i.extension? = some e) :
    (conclude m').Inquires i e (m'.frame.concatAt - i.b) (m'.frame.top - 1) m' := by
  have hr := hm.regained
  refine inquires_conclude (hr.inner hp.inner) (hr.current.trans hp.current) he fun hn => ?_
  have hc := congrArg Frame.negated hr.control
  exact hp.negated (hc.symm.trans hn)

theorem Dialogue.carriedOut {re : Reentry} {captured : Nat → Prop} {x : Outcome (Option Question)}
    {answers : List Machine} {m' : Machine} {o : Outcome (Option CallSite)}
    (hd : Dialogue (re.Answers captured) x answers (.done none m')) (hf : re.Follows x o)
    (hx : x.Inquires i e n h m₀) (he : i.extension? = some e) : o = .done none m' := by
  generalize hy : Outcome.done none m' = y at hd
  induction hd generalizing o n h m₀ with
  | refl x =>
    subst hy
    cases hf
    rfl
  | @step q m₁ m₂ answers y hR hd ih =>
    obtain ⟨m₃, hc, rfl, ha⟩ := hR
    have hr : m₁.Regained m₃ := ha.regained.held m₃.held
    cases hf with
    | asks hq =>
      rw [hq.answered hc hr]
      exact ih (follows_accept re (ha.regained.inner hx.inner) (ha.regained.current.trans hx.current) he)
        (ha.inquires hx he) hy

/-- How far an instruction gets with answers that come at once. -/
inductive Reentry.Stops (re : Reentry) :
    Outcome (Option Question) → Outcome (Option CallSite) → Prop where
  | done (m : Machine) : re.Stops (.done none m) (.done none m)
  | yields {q : Question} {m m' : Machine} : callYieldable re q.nargs q.wanted m = .raised .yield m' →
      re.Stops (.done (some q) m) (.raised .yield { m' with held := q.held })
  | fails {x : Outcome (Option Question)} {err : Error} {m : Machine} : err ≠ .yield →
      re.Stops x (.raised err m)
  | exhausted {x : Outcome (Option Question)} : re.Stops x .exhausted

/-- A property of machines that metamethods keep, so that what they leave behind is an answer. -/
structure Reentry.Replies (re : Reentry) (captured : Nat → Prop) (I : Machine → Prop) : Prop where
  touches : ∀ {m m'}, I m → m.Touches m' → I m'
  answers : ∀ {q : Question} {i : Instruction} {m m' : Machine}, I m → 1 < m.frameCount →
    currentInstruction? m = some i → callYieldable re q.nargs q.wanted m = .done () m' →
    q.Answered captured m m' ∧ I m'

/-- Whatever an instruction does is a dialogue, as far as it gets. -/
theorem Reentry.Follows.dialogue {re : Reentry} {captured : Nat → Prop} {I : Machine → Prop}
    (hI : re.Replies captured I) (he : i.extension? = some e) {x : Outcome (Option Question)}
    {o : Outcome (Option CallSite)} (hf : re.Follows x o) (hm : I m₀) (hx : x.Inquires i e n h m₀) :
    ∃ answers y n' h' m₁, Dialogue (re.Answers captured) x answers y ∧ re.Stops y o ∧ I m₁ ∧
      y.Inquires i e n' h' m₁ := by
  -- a concatenation gets to lower and lower pairs, any other instruction has one question only
  have hk : ∃ k, ∀ q m, x = .done (some q) m → m.frame.concatAt - i.b < k := by
    cases x with
    | done q? m => exact ⟨m.frame.concatAt - i.b + 1, fun q m' hx => by cases hx; omega⟩
    | raised _ _ | exhausted => exact ⟨0, nofun⟩
  obtain ⟨k, hk⟩ := hk
  induction k generalizing x o n h m₀ with
  | zero =>
    cases hf with
    | done m => exact ⟨[], _, _, _, _, .refl _, .done m, hm, hx⟩
    | fails he' => exact ⟨[], _, _, _, _, .refl _, .fails he', hm, hx⟩
    | asks hq => exact absurd (hk _ _ rfl) (Nat.not_lt_zero _)
  | succ k ih =>
    cases hf with
    | done m => exact ⟨[], _, _, _, _, .refl _, .done m, hm, hx⟩
    | fails he' => exact ⟨[], _, _, _, _, .refl _, .fails he', hm, hx⟩
    | @asks q m o hq =>
      have hp : i.Poses e n h m₀ q m := hx
      have hmI := hI.touches hm hp.touches
      cases hc : callYieldable re q.nargs q.wanted m with
      | exhausted => exact ⟨[], _, _, _, _, .refl _, hq.exhausted hc ▸ .exhausted, hm, hx⟩
      | raised err m' =>
        by_cases hy : err = .yield
        · subst hy
          exact ⟨[], _, _, _, _, .refl _, hq.yields hc ▸ .yields hc, hm, hx⟩
        · obtain ⟨m'', hr⟩ := hq.fails hy hc
          exact ⟨[], _, _, _, _, .refl _, hr ▸ .fails hy, hm, hx⟩
      | done a m' =>
        obtain ⟨ha, hI'⟩ := hI.answers hmI hp.inner hp.current hc
        have ha' : q.Answered captured m { m' with held := q.held } := ⟨ha.1, ha.2, ha.3, ha.4⟩
        have hx' := ha'.inquires hp he
        have hf' : re.Follows (conclude { m' with held := q.held }) o := by
          rw [hq.answered hc ha.regained]
          exact follows_accept re (ha'.regained.inner hp.inner)
            (ha'.regained.current.trans hp.current) he
        have hk' : ∀ q' m'', conclude { m' with held := q.held } = .done (some q') m'' →
            m''.frame.concatAt - i.b < k := fun q' m'' hc => by
          obtain rfl := concat_of_asks (ha'.regained.current.trans hp.current) he hc
          have hat : m'.frame.concatAt = m.frame.concatAt := by
            have hc := congrArg Frame.concatAt ha.regained.control
            exact hc
          rw [hc] at hx'
          obtain ⟨-, hge, hlt⟩ := hx'.pair rfl
          replace hlt : m''.frame.concatAt < i.b + (m'.frame.concatAt - i.b) := hlt
          have hlt' := hk q m rfl
          omega
        obtain ⟨answers, y, n', h', m₁, hd, hs, hm₁, hy⟩ :=
          ih hf' (hI.touches hI' ⟨id, q.held, by rw [modifyTop_id]⟩) hx' hk'
        exact ⟨_, y, n', h', m₁, .step ⟨m', hc, rfl, ha'⟩ hd, hs, hm₁, hy⟩

end LuaMachine
