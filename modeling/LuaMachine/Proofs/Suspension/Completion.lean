import LuaMachine.Proofs.OpenList.Forward
import LuaMachine.Proofs.Suspension.Inquiry

namespace LuaMachine

open Machine Exec

variable {m : Machine} {i : Instruction} {e : Extension} {α β : Type} {re : Reentry} {k : Exec β}
  {x : Outcome β}

theorem Machine.Regained.inner {m' : Machine} (h : m.Regained m') (hone : 1 < m.frameCount) :
    1 < m'.frameCount := h.frameCount.symm ▸ hone

theorem Finding.Decides.follows {F : Finding α} {kept : List Value} {wanted : Int} {act : α → Exec β}
    (hF : F.Decides re kept wanted m act k x) (hone : 1 < m.frameCount)
    {f : β → Exec (Option CallSite)} {next : α → Exec (Option Question)}
    (hv : ∀ a, re.Follows (next a m) ((act a m).andThen f))
    (hk : ∀ m', m.Regained m' → (k m').andThen f = accept re .metamethod m') :
    re.Follows (pursue kept wanted next F m) (x.andThen f) := by
  cases hF with
  | value a => exact hv a
  | fault cause => exact .fails nofun
  | @handler h args x hx =>
    exact .asks ((hx.andThen f).congr fun m' hr =>
      hk _ (((regained_posed hone h args kept).trans hr).held _))

theorem Exec.isSome_prototype (hi : currentInstruction? m = some i) : m.prototype.isSome = true := by
  unfold currentInstruction? at hi
  split at hi
  · cases hi
  · obtain ⟨p, hp, -⟩ := Option.bind_eq_some_iff.mp hi
    rw [hp]
    rfl

/-- The running frame takes note that the answer is to be negated. -/
def Machine.negating (m : Machine) : Machine :=
  m.modifyTop m.running fun f => { f with negated := true }

def Outcome.settled (t : ThreadId) (level : Nat) : Outcome α → Outcome α
  | .done a m => .done a (m.modifyLevel t level fun f => { f with negated := false })
  | .raised .yield m => .raised .yield m
  | .raised e m => .raised e (m.modifyLevel t level fun f => { f with negated := false })
  | .exhausted => .exhausted

theorem Outcome.settled_raised {t : ThreadId} {level : Nat} {e : Error} (he : e ≠ .yield) :
    (Outcome.raised e m : Outcome α).settled t level =
      .raised e (m.modifyLevel t level fun f => { f with negated := false }) := by
  cases e with
  | yield => exact absurd rfl he
  | _ => rfl

theorem Exec.run_notGreater (re : Reentry) (a b : Value) (m : Machine) : notGreater re a b m =
    ((callBinary? re b a .lt m.negating).settled m.running (m.frameCount - 1)).andThen fun
      | some v => pure !v.truthy
      | none => fault (.unordered a.kind b.kind) := by
  change (attempt (callBinary? re b a .lt) m.negating).andThen _ = _
  unfold attempt
  cases callBinary? re b a .lt m.negating with
  | exhausted => rfl
  | done v? m' => rfl
  | raised e m' => cases e <;> rfl

namespace Machine

theorem modifyLevel_running {t : ThreadId} {n : Nat} (ht : m.running = t) (hn : m.frameCount = n)
    (g : Frame → Frame) : m.modifyLevel t (n - 1) g = m.modifyTop m.running g := by
  subst ht hn
  exact (m.modifyTop_eq m.running g).symm

theorem frameCount_negating (m : Machine) : m.negating.frameCount = m.frameCount := m.size_modifyTop ..

theorem frame_negating (hone : 1 < m.frameCount) : m.negating.frame = { m.frame with negated := true } :=
  frameAt_modifyTop_self hone _

theorem prototype_negating (hone : 1 < m.frameCount) : m.negating.prototype = m.prototype :=
  prototype_modifyTop hone rfl

theorem current_negating (hone : 1 < m.frameCount) :
    currentInstruction? m.negating = currentInstruction? m := by
  rw [currentInstruction?, currentInstruction?, prototype_negating hone, frame_negating hone]

end Machine

section Instructions

variable (re : Reentry) (hone : 1 < m.frameCount) (hi : currentInstruction? m = some i)
  (he : i.extension? = some e)
include hone hi he

theorem accept_answered (hc : e ≠ .concat) :
    accept re .metamethod m = .done none (m.modifyTop m.running (i.answered e)) := by
  rw [accept_metamethod, run_bind, finishInstruction_eq re hone hi he]
  cases e with
  | concat => exact absurd rfl hc
  | _ => rfl

theorem follows_store {F : Finding Value} {kept : List Value} {x : Exec Value} (hc : e ≠ .concat)
    (hs : ∀ f, i.answered e f = (f.drop 1).setSlot i.a f.peek)
    (hF : F.Decides re kept 1 m pure pop (x m)) :
    re.Follows (pursue kept 1 (fun r => do setRegister i.a r; return none) F m)
      ((x >>= fun r => setRegister i.a r >>= fun _ => pure none) m) := by
  refine hF.follows hone (fun r => .done _) fun m' hr => ?_
  rw [accept_answered re (hr.inner hone) (hr.current.trans hi) he hc, funext hs]
  have hx := congrArg (fun o : Outcome Unit => o.andThen fun _ => pure (none : Option CallSite))
    (run_storeAnswer i.a m')
  exact hx

theorem follows_assign {u : Bool} (hu : e = .assign u) (v k x : Value) :
    re.Follows (inquireAssign v k x m) ((assign re v k x >>= fun _ => pure none) m) := by
  subst hu
  refine (decides_assign re hone (isSome_prototype hi) v k x).follows hone (fun t => ?_)
    fun m' hr => ?_
  · unfold putRaw
    cases Key.ofValue? k with
    | some k => exact .done _
    | none => exact .fails nofun
  · rw [accept_answered re (hr.inner hone) (hr.current.trans hi) he nofun]
    exact congrArg (Outcome.done none) (m'.modifyTop_id m'.running).symm

theorem follows_compare_plain {c : Comparison} (hc : e = .compare c) (hn : m.frame.negated = false)
    {F : Finding Bool} {o : Outcome Bool}
    (hF : F.Decides re [] 1 m pure (do return (← pop).truthy) o) :
    re.Follows (pursue [] 1 (fun r => do skipUnless r (i.a != 0); return none) F m)
      (o.andThen fun r => do skipUnless r (i.a != 0); return none) := by
  subst hc
  refine hF.follows hone (fun r => ?_) fun m' hr => ?_
  · change re.Follows ((skipUnless r (i.a != 0) m).andThen _) ((skipUnless r (i.a != 0) m).andThen _)
    rw [run_skipUnless]
    exact .done _
  · have hn' : m'.frame.negated = false := by
      have hc := congrArg Frame.negated hr.control
      exact hc.trans hn
    rw [accept_answered re (hr.inner hone) (hr.current.trans hi) he nofun]
    change (skipUnless m'.frame.peek.truthy (i.a != 0) (m'.modifyTop m'.running (·.drop 1))).andThen _ = _
    rw [run_skipUnless]
    change Outcome.done none ((m'.modifyTop m'.running _).modifyTop m'.running _) = _
    rw [modifyTop_modifyTop]
    exact congrArg (Outcome.done none) (modifyTop_congr (Frame.decided_plain hn' _).symm)

/-- `not (b < a)` has to call a handler: the frame takes note of the negation, and either the
instruction itself negates the answer or, after a yield, what completes it. -/
theorem consults_notGreater {c : Comparison} (hc : e = .compare c) (a b h : Value)
    (hb : callBinary? re b a .lt m.negating =
      (callHandler re h [b, a] true m.negating).andThen fun v => pure (some v)) :
    re.Consults ⟨2, 1, m.held⟩ (m.negating.posed h [b, a] []) (accept re .metamethod)
      ((notGreater re a b m).andThen fun r => do skipUnless r (i.a != 0); return none) := by
  subst hc
  have hone' : 1 < m.negating.frameCount := m.frameCount_negating.symm ▸ hone
  have hx := consults_callHandler re h [b, a] true hone'
    (prototype_negating hone ▸ isSome_prototype hi)
  constructor
  case answered =>
    intro m' hq hr
    have hr' := (regained_posed hone' h [b, a] []).trans hr
    have hn : m'.frame.negated = true := by
      have hc := congrArg Frame.negated hr'.control
      exact hc.trans (congrArg Frame.negated (frame_negating hone))
    rw [accept_answered re ((hr'.held _).inner hone') ((hr'.held m.held).current.trans
      ((current_negating hone).trans hi)) he nofun, run_notGreater, hb, hx.answered hq hr]
    generalize hm₂ : ({ m' with held := m.negating.held } : Machine) = m₂
    have hm₂' : ({ m' with held := m.held } : Machine) = m₂ := hm₂
    rw [hm₂']
    have ht : m₂.running = m.running := by rw [← hm₂]; exact hr'.running
    have hs : m₂.frameCount = m.frameCount := by
      rw [← hm₂]
      exact hr'.frameCount.trans m.frameCount_negating
    have hn₂ : m₂.frame.negated = true := by rw [← hm₂]; exact hn
    have hs' : (m₂.modifyTop m₂.running (·.drop 1)).frameCount = m.frameCount :=
      (m₂.size_modifyTop ..).trans hs
    change (skipUnless (!m₂.frame.peek.truthy) (i.a != 0) ((m₂.modifyTop m₂.running
      (·.drop 1)).modifyLevel m.running (m.frameCount - 1) _)).andThen _ = _
    rw [modifyLevel_running (m := m₂.modifyTop m₂.running (·.drop 1)) ht hs', run_skipUnless]
    change Outcome.done none (((m₂.modifyTop m₂.running _).modifyTop m₂.running _).modifyTop
      m₂.running _) = _
    rw [modifyTop_modifyTop, modifyTop_modifyTop]
    refine congrArg (Outcome.done none) (modifyTop_congr ?_)
    change _ = m₂.frame.decided _
    rw [Frame.decided, hn₂, Bool.bne_true]
    rfl
  case yields =>
    intro m' hq
    rw [run_notGreater, hb, hx.yields hq]
    rfl
  case fails =>
    intro e m' he hq
    obtain ⟨m'', h'⟩ := hx.fails he hq
    exact ⟨_, by rw [run_notGreater, hb, h', Outcome.andThen_raised, Outcome.settled_raised he,
      Outcome.andThen_raised, Outcome.andThen_raised]⟩
  case exhausted =>
    intro hq
    rw [run_notGreater, hb, hx.exhausted hq]
    rfl

omit hone hi he in
theorem lessEqualFinding_negated {a b : Value} (hn : m.isNegated a b = true) :
    m.lessEqualFinding a b = m.binaryFinding b a .lt (.fault (.unordered a.kind b.kind)) := by
  rw [isNegated, Bool.and_eq_true, Option.isNone_iff_eq_none] at hn
  rw [lessEqualFinding, hn.1]
  exact if_pos hn.2

omit hone hi he in
theorem lessEqual_negated {a b : Value} (hn : m.isNegated a b = true) :
    lessEqual re a b m = notGreater re a b m := by
  rw [isNegated, Bool.and_eq_true, Option.isNone_iff_eq_none] at hn
  rw [lessEqual, hn.1]
  dsimp only
  rw [run_bind, callBinary?_eq, hn.2]
  rfl

theorem follows_notGreater {c : Comparison} (hc : e = .compare c) (a b : Value) :
    re.Follows (pursue [] 1 (fun r => do skipUnless r (i.a != 0); return none)
        (m.negating.binaryFinding b a .lt (.fault (.unordered a.kind b.kind))) m.negating)
      ((notGreater re a b m).andThen fun r => do skipUnless r (i.a != 0); return none) := by
  have hb := callBinary?_eq (m := m.negating) re b a .lt
  rw [binaryFinding]
  cases hh : (m.negating.binaryHandler b a .lt).isNil with
  | true =>
    rw [hh, if_pos rfl] at hb
    rw [if_pos rfl, run_notGreater, hb]
    exact .fails fun h => by cases h
  | false =>
    rw [hh, if_neg Bool.false_ne_true] at hb
    rw [if_neg Bool.false_ne_true]
    exact .asks (consults_notGreater re hone hi he hc a b _ hb)

theorem follows_compare {c : Comparison} (hc : e = .compare c) (hn : m.frame.negated = false)
    (x y : Value) : re.Follows (inquireCompare c (i.a != 0) x y m)
      ((compare re c x y >>= fun r => skipUnless r (i.a != 0) >>= fun _ => pure none) m) := by
  have hb := isSome_prototype hi
  rw [inquireCompare, run_bind, run_read, Outcome.andThen_done, run_bind]
  cases hd : c == .le && m.isNegated x y with
  | false =>
    rw [if_neg Bool.false_ne_true]
    change re.Follows (pursue [] 1 _ (m.compareFinding c x y) m) ((compare re c x y m).andThen _)
    refine follows_compare_plain re hone hi he hc hn ?_
    cases c with
    | eq => exact decides_equals re hone hb x y
    | lt => exact decides_lessThan re hone hb x y
    | le => exact decides_lessEqual re hone hb x y (by simpa using hd)
  | true =>
    obtain ⟨hle, hneg⟩ := (Bool.and_eq_true _ _).mp hd
    obtain rfl : c = .le := by cases c <;> first | rfl | cases hle
    have hF := lessEqualFinding_negated (m := m.negating) hneg
    rw [if_pos rfl]
    change re.Follows (pursue [] 1 _ (m.negating.lessEqualFinding x y) m.negating)
      ((lessEqual re x y m).andThen _)
    rw [hF, lessEqual_negated re hneg]
    exact follows_notGreater re hone hi he hc x y

end Instructions

theorem Machine.inner_modifyTop (hone : 1 < m.frameCount) {t : ThreadId} {g : Frame → Frame} :
    1 < (m.modifyTop t g).frameCount :=
  Nat.lt_of_lt_of_eq hone (m.size_modifyTop ..).symm

theorem Machine.frame_posed (hone : 1 < m.frameCount) (v : Value) (args kept : List Value) :
    (m.posed v args kept).frame = (m.frame.push v).pushAll args := by
  have h₁ : ((m.modifyTop m.running (·.push v)).modifyTop m.running (·.pushAll args)).frame =
    (m.modifyTop m.running (·.push v)).frame.pushAll args :=
      frameAt_modifyTop_self (inner_modifyTop hone) _
  have h₂ : (m.modifyTop m.running (·.push v)).frame = m.frame.push v := frameAt_modifyTop_self hone _
  exact h₁.trans (congrArg (·.pushAll args) h₂)

theorem Machine.current_modifyTop (hone : 1 < m.frameCount) {g : Frame → Frame}
    (hf : (g m.frame).function = m.frame.function) (hp : (g m.frame).pc = m.frame.pc) :
    currentInstruction? (m.modifyTop m.running g) = currentInstruction? m := by
  have hg : (m.modifyTop m.running g).frame = g m.frame := frameAt_modifyTop_self hone g
  rw [currentInstruction?, currentInstruction?, prototype_modifyTop hone hf, hg, hp]

/-- A concatenation is at the pair whose left operand is in this register. -/
def Machine.atPair (m : Machine) (r : Nat) : Machine :=
  m.modifyTop m.running fun f => { f with concatAt := r }

theorem Exec.inquireConcat_succ (a b n : Nat) (m : Machine) : inquireConcat a b (n + 1) m =
    pursue [] 1 (fun v => do setRegister (b + n) v; inquireConcat a b n)
      ((m.atPair (b + n)).concatFinding ((m.atPair (b + n)).frame.slot (b + n))
        ((m.atPair (b + n)).frame.slot (b + n + 1))) (m.atPair (b + n)) := rfl

theorem Exec.concatFrom_succ (re : Reentry) (a b n : Nat) (m : Machine) :
    concatFrom re a b (n + 1) m =
      (concatPair re ((m.atPair (b + n)).frame.slot (b + n)) ((m.atPair (b + n)).frame.slot (b + n + 1))
        (m.atPair (b + n))).andThen (fun v => do
          setRegister (b + n) v
          concatFrom re a b n) := rfl

/-- The fold goes on from the pair that it is at, whoever does the step. -/
theorem follows_concat (re : Reentry) (he : i.extension? = some .concat) (n : Nat) {m : Machine}
    (hone : 1 < m.frameCount) (hi : currentInstruction? m = some i) :
    re.Follows (inquireConcat i.a i.b n m)
      ((concatFrom re i.a i.b n m).andThen fun _ => pure none) := by
  induction n generalizing m with
  | zero => exact .done _
  | succ n ih =>
    rw [inquireConcat_succ, concatFrom_succ, andThen_andThen]
    have hone₁ : 1 < (m.atPair (i.b + n)).frameCount := inner_modifyTop hone
    have hi₁ : currentInstruction? (m.atPair (i.b + n)) = some i :=
      (current_modifyTop hone rfl rfl).trans hi
    have hat : (m.atPair (i.b + n)).frame.concatAt = i.b + n :=
      congrArg Frame.concatAt (frameAt_modifyTop_self hone _)
    generalize m.atPair (i.b + n) = m₁ at hone₁ hi₁ hat ⊢
    refine (decides_concatPair re hone₁ (isSome_prototype hi₁) _ _).follows hone₁ (fun v => ?_)
      fun m' hr => ?_
    · exact ih (m := m₁.modifyTop m₁.running (·.setSlot (i.b + n) v)) (inner_modifyTop hone₁)
        ((current_modifyTop hone₁ rfl rfl).trans hi₁)
    · have hat' : m'.frame.concatAt = i.b + n := by
        have hc := congrArg Frame.concatAt hr.control
        exact hc.trans hat
      have hf : (m'.modifyTop m'.running (i.answered .concat)).frame = i.answered .concat m'.frame :=
        frameAt_modifyTop_self (hr.inner hone₁) _
      have hs : m'.modifyTop m'.running (i.answered .concat) =
          m'.modifyTop m'.running fun f => (f.drop 1).setSlot (i.b + n) f.peek :=
        modifyTop_congr (by rw [← hat']; rfl)
      have hn : (i.answered .concat m'.frame).concatAt - i.b = n := by
        change m'.frame.concatAt - i.b = n
        omega
      rw [accept_metamethod, run_bind, finishInstruction_eq re (hr.inner hone₁) (hr.current.trans hi₁) he]
      change (((do setRegister (i.b + n) (← pop) : Exec Unit) m').andThen _).andThen _ =
        (concatFrom re i.a i.b ((m'.modifyTop m'.running (i.answered .concat)).frame.concatAt - i.b)
          (m'.modifyTop m'.running (i.answered .concat))).andThen _
      rw [hf, hn, hs, run_storeAnswer]
      rfl

class Exec.Looks (x : Exec α) : Prop where
  looks : ∀ m, (∃ a, x m = .done a m) ∨ ∃ e, e ≠ .yield ∧ x m = .raised e m

namespace Exec.Looks

instance read (f : Machine → α) : Looks (read f) := ⟨fun _ => .inl ⟨_, rfl⟩⟩

instance register (r : Nat) : Looks (register r) := read _

instance readUpvalue (u : UpvalueId) : Looks (readUpvalue u) := read _

instance operand (x : Nat) : Looks (operand x) := by
  unfold Exec.operand
  split
  · exact read _
  · exact register x

instance ownUpvalue (n : Nat) : Looks (ownUpvalue n) where
  looks m := by
    rw [Exec.ownUpvalue, run_bind, run_read, Outcome.andThen_done]
    cases m.ownUpvalue? n with
    | some u => exact .inl ⟨u, rfl⟩
    | none => exact .inr ⟨.fault (.noUpvalue n) m.location, nofun, rfl⟩

theorem follows {x : Exec α} [hx : Looks x] {f : α → Exec (Option Question)}
    {g : α → Exec (Option CallSite)} (h : ∀ a, re.Follows (f a m) (g a m)) :
    re.Follows ((x >>= f) m) ((x >>= g) m) := by
  rw [run_bind, run_bind]
  obtain ⟨a, ha⟩ | ⟨e, he, ha⟩ := hx.looks m
  · rw [ha]
    exact h a
  · rw [ha]
    exact .fails he

end Exec.Looks

section Instructions

variable (re : Reentry) (hone : 1 < m.frameCount) (hi : currentInstruction? m = some i)
  (he : i.extension? = some e)
include hone hi he

theorem follows_index (hx : (∃ u, e = .index u) ∨ e = .method) (v k : Value) :
    re.Follows (inquireIndex i.a v k m)
      ((index re v k >>= fun r => setRegister i.a r >>= fun _ => pure none) m) := by
  have hd := decides_index re hone (isSome_prototype hi) v k
  obtain ⟨u, rfl⟩ | rfl := hx
  · exact follows_store re hone hi he nofun (fun _ => rfl) hd
  · exact follows_store re hone hi he nofun (fun _ => rfl) hd

theorem follows_arith {op : Operator} (hx : e = .binary op ∨ e = .unary op) (a b : Value) :
    re.Follows (inquireArith op i.a a b m)
      ((arith re op a b >>= fun r => setRegister i.a r >>= fun _ => pure none) m) := by
  have hd := decides_arith re hone (isSome_prototype hi) op a b
  obtain rfl | rfl := hx
  · exact follows_store re hone hi he nofun (fun _ => rfl) hd
  · exact follows_store re hone hi he nofun (fun _ => rfl) hd

theorem follows_length (hx : e = .length) (v : Value) :
    re.Follows (inquireLength i.a v m)
      ((length re v >>= fun r => setRegister i.a r >>= fun _ => pure none) m) := by
  subst hx
  exact follows_store re hone hi he nofun (fun _ => rfl)
    (decides_length re hone (isSome_prototype hi) v)

theorem follows_plain {op : Opcode} (ho : i.opcode? = some op) (hn : m.frame.negated = false) :
    re.Follows (inquireFor i e m) ((do plainInstruction re op i; return none) m) := by
  have hx : op.extension? = some e := by
    rw [Instruction.extension?, ho] at he
    exact he
  cases op <;> cases hx <;> simp only [plainInstruction, indexInstruction, assignInstruction,
    methodInstruction, arithInstruction, unaryInstruction, compareInstruction, inquireFor, bind_assoc]
  case getTabUp =>
    exact Looks.follows fun u => Looks.follows fun v => Looks.follows fun k =>
      follows_index re hone hi he (.inl ⟨true, rfl⟩) v k
  case getTable =>
    exact Looks.follows fun v => Looks.follows fun k =>
      follows_index re hone hi he (.inl ⟨false, rfl⟩) v k
  case self =>
    exact Looks.follows fun v => Looks.follows fun k => follows_index
      (m := m.modifyTop m.running (·.setSlot (i.a + 1) v)) re (inner_modifyTop hone)
      ((current_modifyTop hone rfl rfl).trans hi) he (.inr rfl) v k
  case setTabUp =>
    exact Looks.follows fun u => Looks.follows fun v => Looks.follows fun k =>
      Looks.follows fun x => follows_assign re hone hi he rfl v k x
  case setTable =>
    exact Looks.follows fun v => Looks.follows fun k =>
      Looks.follows fun x => follows_assign re hone hi he rfl v k x
  case unm | bnot =>
    exact Looks.follows fun v => follows_arith re hone hi he (.inr rfl) v v
  case len =>
    exact Looks.follows fun v => follows_length re hone hi he rfl v
  case concat =>
    exact follows_concat re he _ hone hi
  case eq | lt | le =>
    exact Looks.follows fun x => Looks.follows fun y =>
      follows_compare re hone hi he rfl hn x y
  all_goals
    exact Looks.follows fun x => Looks.follows fun y =>
      follows_arith re hone hi he (.inl rfl) x y

omit hone in
theorem conclude_eq : conclude m = (match e with
    | .concat => (do
        modifyFrame (i.answered .concat)
        inquireConcat i.a i.b ((← readFrame Frame.concatAt) - i.b) : Exec (Option Question))
    | e => do
        modifyFrame (i.answered e)
        return none) m := by
  have hp : ((currentInstruction? m).bind fun i => i.extension?.map (i, ·)) = some (i, e) := by
    rw [hi, Option.bind_some, he]
    rfl
  rw [conclude, run_bind, run_read, Outcome.andThen_done, hp]
  cases e <;> rfl

theorem follows_accept : re.Follows (conclude m) (accept re .metamethod m) := by
  rw [conclude_eq hi he]
  by_cases hc : e = .concat
  · subst hc
    rw [accept_metamethod, run_bind, finishInstruction_eq re hone hi he]
    exact follows_concat re he _ (m := m.modifyTop m.running (i.answered .concat))
      (inner_modifyTop hone) ((current_modifyTop hone rfl rfl).trans hi)
  · rw [accept_answered re hone hi he hc]
    cases e with
    | concat => exact absurd rfl hc
    | _ => exact .done _

end Instructions

theorem Exec.fetched {m₁ : Machine} (hone : 1 < m.frameCount) (hf : fetch m = .done i m₁) :
    m₁ = m.modifyTop m.running (fun f => { f with pc := m.frame.pc + 1 }) ∧
      currentInstruction? m₁ = some i := by
  rw [fetch_eq] at hf
  cases hc : m.prototype.bind (·.code[m.frame.pc]?) with
  | none =>
    rw [hc] at hf
    cases hf
  | some j =>
    rw [hc] at hf
    cases hf
    have hp : (m.modifyTop m.running fun f => { f with pc := m.frame.pc + 1 }).frame.pc =
      m.frame.pc + 1 := congrArg Frame.pc (frameAt_modifyTop_self hone _)
    rw [currentInstruction?, hp, prototype_modifyTop hone rfl]
    exact ⟨rfl, hc⟩

theorem follows_execute (re : Reentry) {m₁ : Machine} (hone : 1 < m.frameCount)
    (hf : fetch m = .done i m₁) (he : i.extension? = some e) (hn : m.frame.negated = false) :
    re.Follows (inquireFor i e m₁) (execute re m) := by
  obtain ⟨op, ho, hx⟩ := i.opcode_of_extension he
  have hr : op ≠ .return := fun hr => by
    subst hr
    cases hx
  obtain ⟨h₁, hi⟩ := fetched hone hf
  have hn₁ : m₁.frame.negated = false := by
    rw [h₁]
    exact (congrArg Frame.negated (frameAt_modifyTop_self hone _)).trans hn
  rw [execute_plain hf ho hr rfl]
  exact follows_plain re (h₁ ▸ inner_modifyTop hone) hi he ho hn₁

end LuaMachine
