import LuaMachine.Proofs.Suspension.Local
import LuaMachine.Proofs.Suspension.Question
import LuaMachine.Proofs.Suspension.Stored

namespace LuaMachine

open Machine Exec

def Frame.decided (expected : Bool) (f : Frame) : Frame :=
  { f.drop 1 with
    negated := false
    pc := if (f.peek.truthy != f.negated) != expected then f.pc + 1 else f.pc }

theorem Frame.decided_plain {f : Frame} (hn : f.negated = false) (expected : Bool) :
    f.decided expected =
      { f.drop 1 with pc := if f.peek.truthy != expected then f.pc + 1 else f.pc } := by
  rw [decided, hn, Bool.bne_false, ← hn]
  rfl

/-- What becomes of the frame of an instruction once its metamethod has answered. The answer is on
top, unless none is wanted. -/
def Instruction.answered (i : Instruction) : Extension → Frame → Frame
  | .assign _, f => f
  | .concat, f => (f.drop 1).setSlot f.concatAt f.peek
  | .compare _, f => f.decided (i.a != 0)
  | _, f => (f.drop 1).setSlot i.a f.peek

def Exec.conclude : Exec (Option Question) := do
  match ← read fun m => (currentInstruction? m).bind fun i => i.extension?.map (i, ·) with
  | none => return none
  | some (i, .concat) => do
    modifyFrame (i.answered .concat)
    inquireConcat i.a i.b ((← readFrame Frame.concatAt) - i.b)
  | some (i, e) => do
    modifyFrame (i.answered e)
    return none

variable {m : Machine} {i : Instruction} {e : Extension} (re : Reentry)

theorem Instruction.opcode_of_extension (h : i.extension? = some e) :
    ∃ op, i.opcode? = some op ∧ op.extension? = some e :=
  Option.bind_eq_some_iff.mp h

namespace Exec

theorem run_storeAnswer (a : Nat) (m : Machine) : (do setRegister a (← pop) : Exec Unit) m =
    .done () (m.modifyTop m.running fun f => (f.drop 1).setSlot a f.peek) := by
  change Outcome.done () ((m.modifyTop m.running (·.drop 1)).modifyTop m.running
    (·.setSlot a m.frame.peek)) = _
  rw [modifyTop_modifyTop]
  exact congrArg (Outcome.done ()) (modifyTop_congr rfl)

theorem run_skipUnless (result expected : Bool) (m : Machine) : skipUnless result expected m =
    .done () (m.modifyTop m.running fun f =>
      { f with pc := if result != expected then f.pc + 1 else f.pc }) := by
  unfold skipUnless
  rw [run_ite]
  cases result != expected with
  | false => exact congrArg (Outcome.done ()) (m.modifyTop_id m.running).symm
  | true => rfl

theorem run_compareAnswer (hone : 1 < m.frameCount) (expected : Bool) :
    (do
      let result := (← pop).truthy
      let negated ← readFrame Frame.negated
      modifyFrame fun f => { f with negated := false }
      skipUnless (result != negated) expected : Exec Unit) m =
    .done () (m.modifyTop m.running (·.decided expected)) := by
  have hf : (m.modifyTop m.running (·.drop 1)).frame = m.frame.drop 1 := frameAt_modifyTop_self hone _
  rw [run_bind, run_pop, Outcome.andThen_done, run_bind, run_readFrame, Outcome.andThen_done, hf,
    run_bind, run_modifyFrame, Outcome.andThen_done, run_skipUnless]
  refine congrArg (Outcome.done ()) ?_
  change ((m.modifyTop m.running _).modifyTop m.running _).modifyTop m.running _ = _
  rw [modifyTop_modifyTop, modifyTop_modifyTop]
  exact modifyTop_congr rfl

theorem finishInstruction_eq (hone : 1 < m.frameCount) (hi : currentInstruction? m = some i)
    (he : i.extension? = some e) :
    finishInstruction re m = (match e with
      | .concat => (do
          modifyFrame (i.answered .concat)
          concatFrom re i.a i.b ((← readFrame Frame.concatAt) - i.b) : Exec Unit)
      | e => modifyFrame (i.answered e)) m := by
  obtain ⟨op, ho, he⟩ := i.opcode_of_extension he
  rw [finishInstruction, run_bind, run_read, Outcome.andThen_done, hi]
  dsimp only
  rw [ho]
  cases op <;> cases he
  case concat =>
    have hf : (m.modifyTop m.running (i.answered .concat)).frame = i.answered .concat m.frame :=
      frameAt_modifyTop_self hone _
    have hx : m.modifyTop m.running (i.answered .concat) =
        m.modifyTop m.running fun f => (f.drop 1).setSlot m.frame.concatAt f.peek := modifyTop_congr rfl
    change ((do setRegister m.frame.concatAt (← pop) : Exec Unit) m).andThen
        (fun _ => concatFrom re i.a i.b (m.frame.concatAt - i.b)) =
      concatFrom re i.a i.b ((m.modifyTop m.running (i.answered .concat)).frame.concatAt - i.b)
        (m.modifyTop m.running (i.answered .concat))
    rw [run_storeAnswer, Outcome.andThen_done, hf, hx]
    rfl
  case eq | lt | le => exact run_compareAnswer hone _
  case setTabUp | setTable => exact congrArg (Outcome.done ()) (m.modifyTop_id m.running).symm
  all_goals exact run_storeAnswer i.a m

end Exec

namespace Machine

structure Regained (m m' : Machine) : Prop where
  running : m'.running = m.running
  frameCount : m'.frameCount = m.frameCount
  control : m'.frame.control = { m.frame.control with top := m'.frame.top }
  prototype : m'.prototype = m.prototype

variable {m' m'' : Machine}

theorem Regained.trans (h : m.Regained m') (h' : m'.Regained m'') : m.Regained m'' := by
  refine ⟨h'.running.trans h.running, h'.frameCount.trans h.frameCount, ?_,
    h'.prototype.trans h.prototype⟩
  rw [h'.control, h.control]

theorem Regained.held (h : m.Regained m') (held : List Value) :
    m.Regained { m' with held } := ⟨h.running, h.frameCount, h.control, h.prototype⟩

theorem Regained.current (h : m.Regained m') : currentInstruction? m' = currentInstruction? m := by
  have hp : m'.frame.pc = m.frame.pc := by
    have hc := congrArg Frame.pc h.control
    exact hc
  rw [currentInstruction?, currentInstruction?, hp, h.prototype]

theorem regained_modifyTop (hone : 1 < m.frameCount) (g : Frame → Frame) [hb : Frame.Benign g]
    (hg : (g m.frame).control = { m.frame.control with top := (g m.frame).top }) :
    m.Regained (m.modifyTop m.running g) := by
  have hf : (m.modifyTop m.running g).frame = g m.frame := frameAt_modifyTop_self hone g
  refine ⟨rfl, m.size_modifyTop .., ?_,
    prototype_modifyTop hone (congrArg Origin.function (hb.origin m.frame))⟩
  rw [hf]
  exact hg

theorem regained_posed (hone : 1 < m.frameCount) (h : Value) (args kept : List Value) :
    m.Regained (m.posed h args kept) := by
  have h₁ := regained_modifyTop hone (·.push h) rfl
  have hone₁ : 1 < (m.modifyTop m.running (·.push h)).frameCount := h₁.frameCount ▸ hone
  exact (h₁.trans (regained_modifyTop hone₁ (·.pushAll args) rfl)).held _

end Machine

/-- A computation that calls the metamethod of a question, goes on with its answer, and lets a yield
through. -/
structure Reentry.Consults {β : Type} (re : Reentry) (q : Question) (m : Machine) (k : Exec β)
    (x : Outcome β) : Prop where
  answered : ∀ {m'}, callYieldable re q.nargs q.wanted m = .done () m' → m.Regained m' →
    x = k { m' with held := q.held }
  yields : ∀ {m'}, callYieldable re q.nargs q.wanted m = .raised .yield m' →
    x = .raised .yield { m' with held := q.held }
  fails : ∀ {e m'}, e ≠ .yield → callYieldable re q.nargs q.wanted m = .raised e m' →
    ∃ m'', x = .raised e m''
  exhausted : callYieldable re q.nargs q.wanted m = .exhausted → x = .exhausted

/-- What a computation does that an inquiry stands for: the metamethod is called, if there is one, and
its answer is what completes the instruction. -/
inductive Reentry.Follows (re : Reentry) :
    Outcome (Option Question) → Outcome (Option CallSite) → Prop where
  | done (m : Machine) : re.Follows (.done none m) (.done none m)
  | asks {q : Question} {m : Machine} {x : Outcome (Option CallSite)} :
      re.Consults q m (accept re .metamethod) x → re.Follows (.done (some q) m) x
  | fails {e e' : Error} {m m' : Machine} : e' ≠ .yield → re.Follows (.raised e m) (.raised e' m')

theorem Reentry.Follows.ends {re : Reentry} {m : Machine} {x : Outcome (Option Question)}
    {o : Outcome (Option CallSite)} (h : re.Follows x o) (hx : x = .done none m) :
    o = .done none m := by
  subst hx
  cases h
  rfl

theorem Reentry.Follows.yields {re : Reentry} {q : Question} {m m' : Machine}
    {x : Outcome (Option Question)} {o : Outcome (Option CallSite)} (h : re.Follows x o)
    (hx : x = .done (some q) m)
    (hc : callYieldable re q.nargs q.wanted m = .raised .yield m') :
    o = .raised .yield { m' with held := q.held } := by
  subst hx
  cases h with
  | asks hq => exact hq.yields hc

inductive Finding.Decides {α β : Type} (re : Reentry) (kept : List Value) (wanted : Int) (m : Machine)
    (act : α → Exec β) (k : Exec β) : Finding α → Outcome β → Prop where
  | value (a : α) : Decides re kept wanted m act k (.value a) (act a m)
  | fault (cause : Fault) : Decides re kept wanted m act k (.fault cause) (Exec.fault cause m)
  | handler {h : Value} {args : List Value} {x : Outcome β} :
      re.Consults ⟨args.length, wanted, m.held⟩ (m.posed h args kept) k x →
      Decides re kept wanted m act k (.handler h args) x

section Consults

variable {α β γ : Type} {re : Reentry} {q : Question} {k : Exec β} {x : Outcome β}

theorem Reentry.Consults.andThen (hx : re.Consults q m k x) (f : β → Exec γ) :
    re.Consults q m (k >>= f) (x.andThen f) where
  answered hc hr := by rw [hx.answered hc hr, run_bind]
  yields hc := by rw [hx.yields hc, Outcome.andThen_raised]
  fails he hc := by
    obtain ⟨m'', h⟩ := hx.fails he hc
    exact ⟨m'', by rw [h, Outcome.andThen_raised]⟩
  exhausted hc := by rw [hx.exhausted hc, Outcome.andThen_exhausted]

theorem Reentry.Consults.congr (hx : re.Consults q m k x) {k' : Exec β}
    (hk : ∀ m', m.Regained m' → k { m' with held := q.held } = k' { m' with held := q.held }) :
    re.Consults q m k' x :=
  ⟨fun hc hr => (hx.answered hc hr).trans (hk _ hr), hx.yields, hx.fails, hx.exhausted⟩

theorem Exec.run_holding (kept : List Value) (x : Exec α) (m : Machine) : holding kept x m =
    (x { m with held := kept ++ m.held }).change fun m' => { m' with held := m.held } := by
  have hh : holding kept x m = (attempt x { m with held := kept ++ m.held }).andThen fun r =>
    modify (fun m' => { m' with held := m.held }) >>= fun _ => ofExcept r := rfl
  rw [hh]
  cases he : x { m with held := kept ++ m.held } with
  | done a m' =>
    rw [run_attempt_done he]
    rfl
  | raised e m' =>
    rw [run_attempt_raised he]
    rfl
  | exhausted =>
    rw [run_attempt_exhausted he]
    rfl

def Exec.callTop (re : Reentry) (nargs : Nat) (wanted : Int) : Exec Unit := do
  if ← inBytecode then callYieldable re nargs wanted else call re nargs wanted

theorem Exec.callHandler_eq (re : Reentry) (h : Value) (args : List Value) (wants : Bool)
    (m : Machine) : callHandler re h args wants m =
      ((callTop re args.length (if wants then 1 else 0) (m.posed h args [])).change
        fun m' => { m' with held := m.held }).andThen
          fun _ => if wants then pop else pure .nil := by
  have hx : callHandler re h args wants m =
      (holding args (callTop re args.length (if wants then 1 else 0))
        ((m.modifyTop m.running (·.push h)).modifyTop m.running (·.pushAll args))).andThen
          fun _ => if wants then pop else pure .nil := rfl
  rw [hx, run_holding]
  rfl

theorem Exec.callTop_eq (re : Reentry) (nargs : Nat) (wanted : Int) (m : Machine) :
    callTop re nargs wanted m =
      if m.prototype.isSome then callYieldable re nargs wanted m else call re nargs wanted m := by
  rw [callTop, run_bind, inBytecode, run_read, Outcome.andThen_done, run_ite]

theorem Exec.run_callHandler (re : Reentry) (h : Value) (args : List Value) (wants : Bool)
    (hone : 1 < m.frameCount) (hb : m.prototype.isSome = true) :
    callHandler re h args wants m =
      ((callYieldable re args.length (if wants then 1 else 0) (m.posed h args [])).change
        fun m' => { m' with held := m.held }).andThen
          fun _ => if wants then pop else pure .nil := by
  have hp : (m.posed h args []).prototype.isSome = true := by
    rw [(regained_posed hone h args []).prototype, hb]
  rw [callHandler_eq, callTop_eq, if_pos hp]

theorem Exec.consults_callHandler (re : Reentry) (h : Value) (args : List Value) (wants : Bool)
    (hone : 1 < m.frameCount) (hb : m.prototype.isSome = true) :
    re.Consults ⟨args.length, if wants then 1 else 0, m.held⟩ (m.posed h args [])
      (if wants then pop else pure .nil) (callHandler re h args wants m) := by
  rw [run_callHandler re h args wants hone hb]
  constructor
  case answered =>
    intro m' hc _
    rw [hc]
    rfl
  case yields =>
    intro m' hc
    rw [hc]
    rfl
  case fails =>
    intro e m' _ hc
    rw [hc]
    exact ⟨_, rfl⟩
  case exhausted =>
    intro hc
    rw [hc]
    rfl

theorem Finding.Decides.holding {F : Finding α} {kept : List Value} {wanted : Int} {act : α → Exec β}
    (hF : F.Decides re [] wanted { m with held := kept ++ m.held } act k x)
    (ha : ∀ a, (act a { m with held := kept ++ m.held }).change (fun m' => { m' with held := m.held }) =
      act a m)
    (hk : ∀ (m' : Machine) held, k { m' with held } = (k m').change fun m'' => { m'' with held }) :
    F.Decides re kept wanted m act k (x.change fun m' => { m' with held := m.held }) := by
  cases hF with
  | value a => exact ha a ▸ .value a
  | fault cause => exact .fault cause
  | handler hx =>
    refine .handler ⟨fun {m'} hc hr => ?_, fun hc => ?_, fun he hc => ?_, fun hc => ?_⟩
    · rw [hx.answered hc hr, hk m', hk m' m.held]
      cases k m' <;> rfl
    · rw [hx.yields hc]
      rfl
    · obtain ⟨m'', h⟩ := hx.fails he hc
      exact ⟨_, by rw [h]; rfl⟩
    · rw [hx.exhausted hc]
      rfl

theorem Machine.indexFinding_held (m : Machine) (held : List Value) (n : Nat) (v k : Value) :
    ({ m with held } : Machine).indexFinding n v k = m.indexFinding n v k := by
  induction n generalizing v with
  | zero => rfl
  | succ n ih =>
    have hs : indexStep { m with held } v k = indexStep m v k := rfl
    rw [indexFinding, indexFinding, hs]
    cases indexStep m v k with
    | handler h =>
      cases h with
      | function f => rfl
      | _ => exact ih _
    | _ => rfl

theorem Machine.assignFinding_held (m : Machine) (held : List Value) (n : Nat) (v k x : Value) :
    ({ m with held } : Machine).assignFinding n v k x = m.assignFinding n v k x := by
  induction n generalizing v with
  | zero => rfl
  | succ n ih =>
    have hs : assignStep { m with held } v k = assignStep m v k := rfl
    rw [assignFinding, assignFinding, hs]
    cases assignStep m v k with
    | handler h =>
      cases h with
      | function f => rfl
      | _ => exact ih _
    | _ => rfl

section Operations

variable (re : Reentry) (hone : 1 < m.frameCount) (hb : m.prototype.isSome = true)
include hone hb

theorem decides_indexChain (n : Nat) (v k : Value) :
    (m.indexFinding n v k).Decides re [] 1 m pure pop (indexChain re n v k m) := by
  induction n generalizing v with
  | zero => exact .fault _
  | succ n ih =>
    rw [indexChain, run_bind, run_read, Outcome.andThen_done, indexFinding]
    cases indexStep m v k with
    | found stored => exact .value stored
    | absent => exact .value Value.nil
    | stuck => exact .fault _
    | handler h =>
      cases h with
      | function f => exact .handler (consults_callHandler re _ _ true hone hb)
      | _ => exact ih _

theorem decides_index (v k : Value) :
    (m.indexFinding chainLimit v k).Decides re [v] 1 m pure pop (index re v k m) := by
  rw [index, run_holding, ← indexFinding_held m ([v] ++ m.held)]
  exact (decides_indexChain (m := { m with held := [v] ++ m.held }) re hone hb chainLimit v k).holding
    (fun _ => rfl) fun _ _ => rfl

theorem decides_assignChain (n : Nat) (v k x : Value) :
    (m.assignFinding n v k x).Decides re [] 0 m (putRaw · k x) (pure ())
      (assignChain re n v k x m) := by
  induction n generalizing v with
  | zero => exact .fault _
  | succ n ih =>
    rw [assignChain, run_bind, run_read, Outcome.andThen_done, assignFinding]
    cases assignStep m v k with
    | store t => exact .value t
    | stuck => exact .fault _
    | handler h =>
      cases h with
      | function f => exact .handler ((consults_callHandler re _ _ false hone hb).andThen fun _ => pure ())
      | _ => exact ih _

theorem decides_assign (v k x : Value) :
    (m.assignFinding chainLimit v k x).Decides re [v] 0 m (putRaw · k x) (pure ())
      (assign re v k x m) := by
  have hp (t : TableId) : (putRaw t k x { m with held := [v] ++ m.held }).change
      (fun m' => { m' with held := m.held }) = putRaw t k x m := by
    unfold putRaw
    cases Key.ofValue? k <;> rfl
  rw [assign, run_holding, ← assignFinding_held m ([v] ++ m.held)]
  exact (decides_assignChain (m := { m with held := [v] ++ m.held }) re hone hb chainLimit v k x).holding
    hp fun _ _ => rfl

omit hone hb in
theorem callBinary?_eq (a b : Value) (e : Event) : callBinary? re a b e m =
    (if (m.binaryHandler a b e).isNil then pure none
      else do return some (← callHandler re (m.binaryHandler a b e) [a, b] true) : Exec _) m := by
  unfold callBinary? binaryHandler
  rw [run_bind, run_read, Outcome.andThen_done]
  cases (m.handler a e).isNil <;> rfl

/-- An operation of two operands; `answer` is what it makes of the handler's result, and `y` what it
does if there is none. -/
theorem decides_binary (a b : Value) (e : Event) {answer : Value → β} {otherwise : Finding β}
    {y : Exec β} (ho : (m.binaryHandler a b e).isNil = true →
      otherwise.Decides re [] 1 m pure (do return answer (← pop)) (y m)) :
    (m.binaryFinding a b e otherwise).Decides re [] 1 m pure (do return answer (← pop))
      ((callBinary? re a b e >>= fun
        | some v => pure (answer v)
        | none => y) m) := by
  rw [run_bind, callBinary?_eq, binaryFinding]
  cases hn : (m.binaryHandler a b e).isNil with
  | true => exact ho hn
  | false =>
    rw [if_neg Bool.false_ne_true, if_neg Bool.false_ne_true, run_bind, andThen_andThen]
    exact .handler ((consults_callHandler re _ [a, b] true hone hb).andThen fun v => pure (answer v))

theorem decides_arith (op : Operator) (a b : Value) :
    (m.arithFinding op a b).Decides re [] 1 m pure pop (arith re op a b m) := by
  unfold arith arithFinding
  cases op.evaluate? a b with
  | error division => exact .fault _
  | ok v? =>
    cases v? with
    | some v => exact .value v
    | none =>
      have hd : Finding.Decides re [] 1 m pure (do return id (← pop)) _ _ :=
        decides_binary re hone hb a b op.event fun _ => .fault (operandFault op a b)
      exact hd

theorem decides_tables (s t : TableId) :
    (m.equalsFinding (.table s) (.table t)).Decides re [] 1 m pure (do return (← pop).truthy)
      (equals re (.table s) (.table t) m) := by
  rw [equals, equalsFinding]
  by_cases hs : s = t
  · rw [if_pos hs, if_pos hs]
    exact .value true
  · rw [if_neg hs, if_neg hs]
    have hx : (do
        return ((← callBinary? re (.table s) (.table t) .eq).map Value.truthy).getD false :
          Exec Bool) = callBinary? re (.table s) (.table t) .eq >>= fun
        | some v => pure v.truthy
        | none => pure false := bind_congr fun v? => by cases v? <;> rfl
    rw [hx]
    exact decides_binary re hone hb (.table s) (.table t) .eq fun _ => .value false

theorem decides_equals (a b : Value) :
    (m.equalsFinding a b).Decides re [] 1 m pure (do return (← pop).truthy) (equals re a b m) := by
  cases a with
  | table s =>
    cases b with
    | table t => exact decides_tables re hone hb s t
    | _ => exact .value _
  | _ => exact .value _

theorem decides_lessThan (a b : Value) :
    (m.lessThanFinding a b).Decides re [] 1 m pure (do return (← pop).truthy)
      (lessThan re a b m) := by
  unfold lessThan lessThanFinding
  cases a.less? b with
  | some r => exact .value r
  | none => exact decides_binary re hone hb a b .lt fun _ => .fault _

theorem decides_lessEqual (a b : Value) (hn : m.isNegated a b = false) :
    (m.lessEqualFinding a b).Decides re [] 1 m pure (do return (← pop).truthy)
      (lessEqual re a b m) := by
  unfold isNegated at hn
  unfold lessEqual lessEqualFinding
  cases hl : a.lessEqual? b with
  | some r => exact .value r
  | none =>
    rw [hl] at hn
    exact decides_binary re hone hb a b .le fun hh => nomatch hh.symm.trans hn

omit hone hb in
theorem length_eq {v : Value} (hv : ∀ s, v ≠ .string s) : length re v m =
    (if (m.handler v .len).isNil then
      match v with
      | .table t => pure (.int (Int64.ofNat (m.table t).length))
      | v => fault (.noLength v.kind)
    else callHandler re (m.handler v .len) [v, v] true : Exec Value) m := by
  unfold length
  split
  · exact absurd rfl (hv _)
  · rw [run_bind, run_read, Outcome.andThen_done]
    generalize m.handler v .len = h
    cases h <;> cases v <;> rfl

theorem decides_length (v : Value) :
    (m.lengthFinding v).Decides re [] 1 m pure pop (length re v m) := by
  unfold lengthFinding
  split
  · exact .value (Value.int _)
  · next h =>
    rw [length_eq re h]
    split
    · split
      · exact .value (Value.int _)
      · next ht =>
        split
        · exact (ht _ rfl).elim
        · exact .fault _
    · exact .handler (consults_callHandler re _ _ true hone hb)

theorem decides_concatPair (a b : Value) :
    (m.concatFinding a b).Decides re [] 1 m pure pop (concatPair re a b m) := by
  have hd (cause : Fault) : (m.binaryFinding a b .concat (.fault cause)).Decides re [] 1 m pure
      (do return id (← pop)) ((callBinary? re a b .concat >>= fun
        | some v => pure (id v)
        | none => fault cause) m) :=
    decides_binary re hone hb a b .concat fun _ => .fault cause
  unfold concatPair concatFinding
  cases a.toBytes? with
  | none => exact hd _
  | some s =>
    cases b.toBytes? with
    | none => exact hd _
    | some t => exact .value _

end Operations

end Consults
end LuaMachine
