import LuaMachine.Bytecode.Dispatch
import LuaMachine.Proofs.Frame.Intact
import LuaMachine.Proofs.Invariant.Operations

namespace LuaMachine.Exec

section Neat

variable {K : Condition} [hK : K.Neat]

instance keeps_fetch : Keeps K fetch := by
  unfold fetch
  refine Keeps.bind inferInstance fun pc => Keeps.bind inferInstance fun i => ?_
  cases i with
  | none => exact @keeps_raise _ K outOfRange (lax_thrown _)
  | some i => infer_instance

instance keeps_fetchExtra (op : Opcode) : Keeps K (fetchExtra op) := by
  unfold fetchExtra
  refine Keeps.bind inferInstance fun i => ?_
  split <;> infer_instance

instance keeps_register (r : Nat) : Keeps K (register r) := keeps_read _
instance keeps_constant (k : Nat) : Keeps K (constant k) := keeps_read _

instance keeps_operand (x : Nat) : Keeps K (operand x) := by
  unfold operand
  infer_instance

omit hK in
instance keeps_ownUpvalue (i : Nat) : Keeps K (ownUpvalue i) := by
  unfold ownUpvalue
  refine Keeps.bind inferInstance fun u => ?_
  cases u <;> infer_instance

instance keeps_jump (offset : Int) : Keeps K (jump offset) := keeps_modifyNeat _
instance keeps_skipNext : Keeps K skipNext := keeps_jump 1

instance keeps_skipUnless (result expected : Bool) : Keeps K (skipUnless result expected) := by
  unfold skipUnless
  infer_instance

instance keeps_storeResults (a c : Nat) : Keeps K (storeResults a c) := by
  unfold storeResults
  cases c <;> infer_instance

instance keeps_marker : Keeps K marker := by
  unfold marker
  infer_instance

instance keeps_gather (a : Nat) : Keeps K (gather a) := by
  unfold gather
  infer_instance

instance keeps_pushCall (a b : Nat) : Keeps K (pushCall a b) := by
  unfold pushCall
  cases b <;> infer_instance

instance keeps_storeItems (t : TableId) (start : Nat) (items : List Value) :
    Keeps K (storeItems t start items) := by
  unfold storeItems
  infer_instance

instance keeps_setList (i : Instruction) : Keeps K (setList i) := by
  unfold setList
  dsimp only
  split
  all_goals
    refine Keeps.bind inferInstance fun block => Keeps.bind inferInstance fun v => ?_
    cases v <;> infer_instance

instance keeps_copyVarargs (a b : Nat) : Keeps K (copyVarargs a b) := by
  unfold copyVarargs
  infer_instance

def Inside (K : Condition) : Condition := fun r y m => K r y m ∧ m.RunsBytecode (m.frameAt r)

instance keeps_capture (slot : Nat) : Keeps (Inside K) (capture slot) where
  ends m h := by
    cases hn : m.frame.captured.find? (·.1 = slot) with
    | some p =>
      rw [capture_found hn]
      exact ⟨rfl, h⟩
    | none =>
      rw [capture_fresh hn]
      have hs : ∀ p ∈ m.frame.captured, p.1 ≠ slot := fun p hp he => by
        simpa [he] using List.find?_eq_none.mp hn p hp
      refine ⟨rfl, hK.capturing slot h.2 hs h.1, ?_⟩
      have ho : ((m.capturing m.running slot).frameAt m.running).origin = m.frame.origin :=
        Machine.origin_modifyTop _ m.running _
      exact h.2.mono List.prefix_rfl (congrArg Origin.function ho)

theorem runsBytecode_of_prototype {m : Machine} {p : Prototype} (h : m.prototype = some p) :
    m.RunsBytecode m.frame := by
  unfold Machine.prototype Machine.prototypeOf Machine.functionOf Machine.functionAt at h
  cases hf : m.frame.function with
  | none =>
    rw [hf] at h
    cases h
  | some id =>
    rw [hf, Option.map_some, Array.getD_eq_getD_getElem?] at h
    cases hfn : m.functions[id.index]? with
    | none =>
      rw [hfn] at h
      cases h
    | some fn =>
      obtain ⟨body, us⟩ := fn
      rw [hfn, Option.getD_some] at h
      cases body with
      | bytecode p' => exact ⟨id, p', us, hf, hfn⟩
      | native f => cases h

end Neat

section Firm

variable {K : Condition} [hK : K.Firm]

instance keeps_setRegister (r : Nat) (v : Value) : Keeps K (setRegister r v) := keeps_modifyFrame _

instance keeps_prepareLoop (a : Nat) (offset : Int) : Keeps K (prepareLoop a offset) := by
  unfold prepareLoop
  refine Keeps.bind inferInstance fun i => Keeps.bind inferInstance fun l =>
    Keeps.bind inferInstance fun s => ?_
  split <;> infer_instance

instance keeps_advanceLoop (a : Nat) (offset : Int) : Keeps K (advanceLoop a offset) := by
  unfold advanceLoop
  refine Keeps.bind inferInstance fun i => Keeps.bind inferInstance fun l =>
    Keeps.bind inferInstance fun s => ?_
  split <;> infer_instance

instance keeps_closureInstruction (i : Instruction) : Keeps K (closureInstruction i) where
  ends m h := by
    change Outcome.Ends K m.running ((match m.prototype.bind (·.children[i.bx]?) with
      | none => fault (.noPrototype i.bx)
      | some p => (_ : Exec Unit) : Exec Unit) m)
    cases hp : m.prototype.bind (·.children[i.bx]?) with
    | none => exact ⟨rfl, h⟩
    | some p =>
      obtain ⟨q, hq, -⟩ := Option.bind_eq_some_iff.mp hp
      have hin : Inside K m.running false m := ⟨h, runsBytecode_of_prototype hq⟩
      have hc : ∀ c : Capture, Keeps (Inside K) (match c with
          | .register slot => capture slot
          | .upvalue index => ownUpvalue index) := fun c => by
        cases c with
        | register slot => exact keeps_capture slot
        | upvalue index => exact keeps_ownUpvalue index
      refine ends_andThen (((keeps_mapM p.captures _).ends m hin).imp fun _ _ h => h.1)
        fun us m' hr hm' => ?_
      rw [← hr] at hm' ⊢
      have hk : Keeps K (newFunction { body := .bytecode p, upvalues := us.toArray } >>= fun f =>
        setRegister i.a (.function f)) := inferInstance
      exact hk.ends m' hm'

end Firm

section Tidy

variable {K : Condition} [K.Tidy] (re : Reentry) [re.Calls K] [re.Starts K]

instance keeps_callRegister (a b c : Nat) : Keeps K (callRegister re a b c) := by
  unfold callRegister
  infer_instance

instance keeps_callIterator (a c : Nat) : Keeps K (callIterator re a c) := by
  unfold callIterator
  infer_instance

instance keeps_compareInstruction (c : Comparison) (i : Instruction) :
    Keeps K (compareInstruction re c i) := by
  unfold compareInstruction
  infer_instance

instance keeps_assignInstruction (v : Value) (key value : Nat) :
    Keeps K (assignInstruction re v key value) := by
  unfold assignInstruction
  infer_instance

end Tidy

variable {K : Condition} [K.Steady] (re : Reentry) [re.Calls K] [re.Starts K]

instance keeps_concatFrom (a b n : Nat) : Keeps K (concatFrom re a b n) := by
  induction n with
  | zero =>
    unfold concatFrom
    infer_instance
  | succ n ih =>
    unfold concatFrom
    infer_instance

instance keeps_arithInstruction (op : Operator) (i : Instruction) :
    Keeps K (arithInstruction re op i) := by
  unfold arithInstruction
  infer_instance

instance keeps_unaryInstruction (op : Operator) (i : Instruction) :
    Keeps K (unaryInstruction re op i) := by
  unfold unaryInstruction
  infer_instance

instance keeps_indexInstruction (a : Nat) (v : Value) (key : Nat) :
    Keeps K (indexInstruction re a v key) := by
  unfold indexInstruction
  infer_instance

instance keeps_methodInstruction (i : Instruction) : Keeps K (methodInstruction re i) := by
  unfold methodInstruction
  infer_instance

instance keeps_plainInstruction (op : Opcode) (i : Instruction) :
    Keeps K (plainInstruction re op i) := by
  unfold plainInstruction
  cases op <;> infer_instance

instance keeps_finishInstruction : Keeps K (finishInstruction re) := by
  unfold finishInstruction
  refine Keeps.bind inferInstance fun i => ?_
  cases i with
  | none => infer_instance
  | some i =>
    dsimp only
    split <;> infer_instance

end LuaMachine.Exec
