import LuaMachine.Proofs.Clearance.Frames
import LuaMachine.Proofs.Concatenation.Row

namespace LuaMachine

open Machine Exec

/-- A condition under which bytecode may do anything to its own registers, in a thread that is running. -/
class Condition.Lenient (K : Condition) : Prop where
  discreet : ∀ {r y m} (g : Frame → Frame) [Frame.Discreet g], Inside K r y m → K r y (m.modifyTop r g)
  parked : ∀ {m}, Inside K m.running false m → m.thread.parked = false

namespace Machine

variable {m : Machine} {t : ThreadId} {g : Frame → Frame}

theorem RunsBytecode.modifyTop [hg : Frame.Benign g] (h : m.RunsBytecode (m.frameAt t)) :
    (m.modifyTop t g).RunsBytecode ((m.modifyTop t g).frameAt t) :=
  h.mono List.prefix_rfl (congrArg Origin.function (m.origin_modifyTop t g))

theorem RunsBytecode.modifyLevel [hg : Frame.Benign g] (h : m.RunsBytecode (m.frameAt t))
    (t' : ThreadId) (level : Nat) :
    (m.modifyLevel t' level g).RunsBytecode ((m.modifyLevel t' level g).frameAt t) := by
  refine h.mono List.prefix_rfl ?_
  unfold frameAt Machine.modifyLevel
  rw [threadAt_modify]
  split
  · simp only [modifyFrames, Array.back?, Array.size_modify, Array.getElem?_modify]
    split
    · cases (m.threadAt t).frames[(m.threadAt t).frames.size - 1]? with
      | none => rfl
      | some f => exact congrArg Origin.function (hg.origin f)
    · rfl
  · rfl

end Machine

instance Condition.Lenient.firm {K : Condition} [hK : K.Tidy] [hl : K.Lenient] :
    Condition.Firm (Inside K) where
  heap m m' ht hu hf hl h :=
    ⟨hK.heap m m' ht hu hf hl h.1, h.2.mono hf (by rw [frameAt, threadAt, ht]; rfl)⟩
  closed v h := ⟨hK.closed v h.1, h.2⟩
  assigned u v w hu h := ⟨hK.assigned u v w hu h.1, h.2⟩
  closing {r _ m} start h := ⟨hK.closing start h.1, h.2.mono List.prefix_rfl (congrArg Origin.function
    ((m.closeAll ((m.frameAt r).captured.filter (start ≤ ·.1))).origin_modifyTop r _))⟩
  capturing {r _ m} slot hf hs h := ⟨hK.capturing slot hf hs h.1, h.2.mono List.prefix_rfl
    (congrArg Origin.function (({ m with upvalues := _ } : Machine).origin_modifyTop r _))⟩
  discreet g _ h := ⟨hl.discreet g h, h.2.modifyTop⟩
  register u p v hu h := ⟨hK.register u p v hu h.1, h.2.modifyLevel _ _⟩

def Outcome.Proceeds {α : Type} (K : Condition) (r : ThreadId) : Outcome α → Prop
  | .done _ m => m.running = r ∧ Inside K r false m
  | .raised e m => m.running = r ∧ K r e.isYield m
  | .exhausted => True

theorem Outcome.Proceeds.ends {α : Type} {K : Condition} {r : ThreadId} {o : Outcome α}
    (h : o.Proceeds K r) : o.Ends K r := by
  cases o with
  | done a m => exact ⟨h.1, h.2.1⟩
  | raised e m => exact h
  | exhausted => trivial

theorem Outcome.Proceeds.andThen {α β : Type} {K : Condition} {r : ThreadId} {o : Outcome α}
    {f : α → Exec β} (h : o.Proceeds K r)
    (hf : ∀ a m, m.running = r → Inside K r false m → (f a m).Proceeds K r) :
    (o.andThen f).Proceeds K r := by
  cases o with
  | done a m => exact hf a m h.1 h.2
  | raised e m => exact h
  | exhausted => trivial

/-- What is known of scripts that do not resume the thread that they run in, but may raise any error. -/
abbrev Manners.modest : Manners := ⟨False, True⟩

theorem Machine.RunsBytecode.landed {m : Machine} (h : m.RunsBytecode m.frame)
    (hp : m.thread.parked = false) :
    Landed .modest m.running m.frameCount m.thread.counts m False m :=
  have ⟨ht, hf⟩ := exists_frameAt h.function_ne_none
  ⟨.refl .., ht, Nat.zero_lt_of_lt (Array.getElem?_eq_some_iff.mp hf).1, rfl, hp, fun _ => trivial, rfl,
    False.elim⟩

class Reentry.Sheltered (re : Reentry) : Prop where
  shelters : ∀ t, re.Shelters .modest t

instance Reentry.Sheltered.genuine (re : Reentry) [h : re.Sheltered] : re.Genuine :=
  (h.shelters default).distant.toGenuine

namespace Exec

class Proceeds {α : Type} (K : Condition) (x : Exec α) : Prop where
  ends : ∀ m, Inside K m.running false m → (x m).Proceeds K m.running

variable {α β : Type} {K : Condition}

instance proceeds_of_keeps (x : Exec α) [hx : Keeps (Inside K) x] : Proceeds K x where
  ends m h := by
    have he := hx.ends m h
    cases hx : x m with
    | done a m' =>
      rw [hx] at he
      exact he
    | raised e m' =>
      rw [hx] at he
      exact ⟨he.1, he.2.1⟩
    | exhausted => trivial

instance proceeds_bind (x : Exec α) (f : α → Exec β) [hx : Proceeds K x] [hf : ∀ a, Proceeds K (f a)] :
    Proceeds K (x >>= f) where
  ends m h := (hx.ends m h).andThen fun a m' hr hm' => by
    rw [← hr] at hm' ⊢
    exact (hf a).ends m' hm'

instance proceeds_ite (c : Prop) [Decidable c] (x y : Exec α) [hx : Proceeds K x] [hy : Proceeds K y] :
    Proceeds K (if c then x else y) := by
  split
  · exact hx
  · exact hy

instance proceeds_holding (vs : List Value) (x : Exec α) [K.Neat] [hx : Proceeds K x] :
    Proceeds K (holding vs x) where
  ends m h := by
    have haside {m : Machine} {r y} (held : List Value) (hm : Inside K r y m) :
        Inside K r y { m with held } :=
      ⟨kept_aside (inferInstance : Aside fun m => { m with held }) hm.1, hm.2⟩
    have hx := hx.ends { m with held := vs ++ m.held } (haside _ h)
    change (((attempt x) { m with held := vs ++ m.held }).andThen _).Proceeds K m.running
    unfold attempt
    cases he : x { m with held := vs ++ m.held } with
    | done a m' =>
      rw [he] at hx
      exact ⟨hx.1, haside _ hx.2⟩
    | raised e m' =>
      rw [he] at hx
      exact ⟨hx.1, kept_aside (inferInstance : Aside fun m' => { m' with held := m.held }) hx.2⟩
    | exhausted => trivial

section Handlers

variable [K.Tidy] [K.Lenient] (re : Reentry) [hc : re.Calls K] [hs : re.Sheltered]

instance proceeds_callHandler (handler : Value) (args : List Value) :
    Proceeds K (callHandler re handler args true) where
  ends m h := by
    have hk := (hc.callHandler handler args true).ends m h.1
    cases he : callHandler re handler args true m with
    | done v m' =>
      rw [he] at hk
      have hm := h.2.landed (Condition.Lenient.parked h)
      obtain ⟨hr, hl⟩ := callHandler_done (hs.shelters m.running) hm he
      obtain ⟨n, hn⟩ := Nat.exists_eq_add_one_of_ne_zero (Nat.ne_of_gt hm.positive)
      have hf : (m'.frameAt m.running).control.function = (m.frameAt m.running).control.function :=
        congrArg Frame.function ((hn ▸ hl).kept_top hn).1
      exact ⟨hr, hk.2, h.2.mono hl.intact.functions hf⟩
    | raised e m' =>
      rw [he] at hk
      exact hk
    | exhausted => trivial

instance proceeds_callBinary? (a b : Value) (e : Event) : Proceeds K (callBinary? re a b e) := by
  unfold callBinary?
  infer_instance

instance proceeds_indexChain (n : Nat) (v k : Value) : Proceeds K (indexChain re n v k) := by
  induction n generalizing v with
  | zero =>
    unfold indexChain
    infer_instance
  | succ n ih =>
    unfold indexChain
    refine @proceeds_bind _ _ _ _ _ inferInstance fun step => ?_
    cases step with
    | handler h => cases h <;> infer_instance
    | _ => infer_instance

instance proceeds_index (v k : Value) : Proceeds K (index re v k) := by
  unfold index
  infer_instance

instance proceeds_arith (op : Operator) (a b : Value) : Proceeds K (arith re op a b) := by
  unfold arith
  split
  · infer_instance
  · infer_instance
  · refine @proceeds_bind _ _ _ _ _ inferInstance fun r => ?_
    cases r <;> infer_instance

instance proceeds_length (v : Value) : Proceeds K (length re v) := by
  unfold length
  split
  · infer_instance
  · refine @proceeds_bind _ _ _ _ _ inferInstance fun h => ?_
    split <;> infer_instance

instance proceeds_concatPair (a b : Value) : Proceeds K (concatPair re a b) := by
  unfold concatPair
  split
  · infer_instance
  · refine @proceeds_bind _ _ _ _ _ inferInstance fun r => ?_
    cases r <;> infer_instance

instance proceeds_concatFrom (a b n : Nat) : Proceeds K (concatFrom re a b n) := by
  induction n with
  | zero =>
    unfold concatFrom
    infer_instance
  | succ n ih =>
    unfold concatFrom
    infer_instance

/-- An instruction whose result goes to a register, if it has one. The others call a function last, if
they call one at all. -/
theorem ends_plainInstruction [re.Starts K] {op : Opcode} {i : Instruction} {m : Machine}
    (h : Inside K m.running false m) : (plainInstruction re op i m).Ends K m.running := by
  have proceeds {x : Exec Unit} [hx : Proceeds K x] : (x m).Ends K m.running := (hx.ends m h).ends
  have keeps {x : Exec Unit} [hx : Keeps K x] : (x m).Ends K m.running := hx.ends m h.1
  unfold plainInstruction
  cases op with
  | setTabUp | setTable | eq | lt | le | call | tailCall | tforCall => exact keeps
  | getTabUp | getTable => unfold indexInstruction; exact proceeds
  | self => unfold methodInstruction; exact proceeds
  | add | sub | mul | mod | pow | div | idiv | band | bor | bxor | shl | shr =>
    unfold arithInstruction
    exact proceeds
  | unm | bnot => unfold unaryInstruction; exact proceeds
  | _ => exact proceeds

theorem runsBytecode_of_fetch {m m₁ : Machine} {i : Instruction} (hf : fetch m = .done i m₁) :
    m.RunsBytecode m.frame ∧ m₁ = m.modifyTop m.running fun f => { f with pc := m.frame.pc + 1 } := by
  rw [fetch_eq] at hf
  cases hi : m.prototype.bind (·.code[m.frame.pc]?) with
  | none =>
    rw [hi] at hf
    cases hf
  | some i' =>
    rw [hi] at hf
    cases hf
    obtain ⟨p, hp, -⟩ := Option.bind_eq_some_iff.mp hi
    exact ⟨runsBytecode_of_prototype hp, rfl⟩

theorem keeps_finishInstruction_lenient : Keeps K (finishInstruction re) where
  ends m h := by
    unfold finishInstruction
    rw [run_bind, run_read, Outcome.andThen_done]
    cases hi : currentInstruction? m with
    | none => exact ⟨rfl, h⟩
    | some i =>
      have hin : Inside K m.running false m := ⟨h, runsBytecode_of_current hi⟩
      have proceeds {x : Exec Unit} [hx : Proceeds K x] : (x m).Ends K m.running := (hx.ends m hin).ends
      have keeps {x : Exec Unit} [hx : Keeps K x] : (x m).Ends K m.running := hx.ends m h
      dsimp only
      cases i.opcode? with
      | none => exact proceeds
      | some op =>
        cases op with
        | eq | lt | le => exact keeps
        | _ => exact proceeds

instance instructs_lenient [re.Starts K] : re.Instructs K where
  plain {m m₁ i} op hm hf := by
    obtain ⟨hb, rfl⟩ := runsBytecode_of_fetch hf
    exact ends_plainInstruction (m := m.modifyTop m.running _) re ⟨Condition.Tidy.top _ _ hm, hb.modifyTop⟩
  finish := keeps_finishInstruction_lenient re

end Handlers
end Exec

instance Condition.ClearAbove.lenient {up : ThreadId → Prop} :
    Condition.Lenient (Condition.ClearAbove up up) where
  discreet _ hg h := ⟨h.1.1.modifyTop _ (fun f => congrArg Origin.function (hg.origin f)) hg.captured
    (.inl h.2), h.1.2⟩
  parked h := h.1.1.inUse _ h.1.2

end LuaMachine
