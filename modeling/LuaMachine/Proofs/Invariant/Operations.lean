import LuaMachine.Library
import LuaMachine.Proofs.Invariant.Stable

namespace LuaMachine

/-- Getting back into the machine from a native function keeps the condition. A call by the host
never lets a yield through. -/
class Reentry.Calls (K : Condition) (re : Reentry) : Prop where
  call : ∀ nargs wanted, Exec.Keeps K (Exec.call re nargs wanted)
  callHolds : ∀ nargs wanted, Exec.Holds K (Exec.call re nargs wanted)
  callHandler : ∀ handler args wantsResult,
    Exec.Keeps K (Exec.callHandler re handler args wantsResult)
  pcall : ∀ nargs wanted handler, Exec.Keeps K (Exec.pcall re nargs wanted handler)

class Reentry.Safe (K : Condition) (re : Reentry) : Prop extends Reentry.Calls K re where
  resume : ∀ source nargs, Exec.Keeps (Condition.quiet K) (Exec.resume re source nargs)

/-- What keeps the condition is the start of a call that the dispatch loop goes on with. -/
class Reentry.Starts (K : Condition) (re : Reentry) : Prop where
  enter : ∀ nargs wanted site, site ≠ CallSite.host → Exec.Keeps K (Exec.enter re nargs wanted site)
  guardedCall : ∀ handler, Exec.Keeps K (Exec.guardedCall re handler)

class Condition.Yields (K : Condition) : Prop where
  yields : ∀ {α : Type} n, Exec.Keeps K (Exec.yieldError n >>= fun e => (Exec.raise e : Exec α))

namespace Exec

section Stack

variable {K : Condition} [hK : K.Neat]

instance keeps_push (v : Value) : Keeps K (push v) := keeps_modifyNeat _
instance keeps_pushAll (vs : List Value) : Keeps K (pushAll vs) := keeps_modifyNeat _
instance keeps_drop (n : Nat) : Keeps K (drop n) := keeps_modifyNeat _
instance keeps_top : Keeps K top := keeps_read _
instance keeps_isValid (i : Int) : Keeps K (isValid i) := keeps_read _
instance keeps_absIndex (i : Int) : Keeps K (absIndex i) := keeps_read _
instance keeps_checkStack (n : Nat) : Keeps K (checkStack n) := keeps_read _

instance keeps_pushAdjusted (vs : List Value) (wanted : Int) : Keeps K (pushAdjusted vs wanted) :=
  keeps_pushAll _

instance keeps_pushString (s : String) : Keeps K (pushString s) := keeps_push _
instance keeps_pushInt (i : Int64) : Keeps K (pushInt i) := keeps_push _

instance keeps_pushNative (f : Native) : Keeps K (pushNative f) := by
  unfold pushNative
  infer_instance

instance keeps_pop : Keeps K pop := by
  unfold pop
  infer_instance

instance keeps_popMany (n : Nat) : Keeps K (popMany n) := by
  unfold popMany
  infer_instance

instance keeps_valueAt (i : Int) : Keeps K (valueAt i) := by
  unfold valueAt
  refine Keeps.bind inferInstance fun p => ?_
  cases p with
  | upvalue u =>
    refine Keeps.bind inferInstance fun u? => ?_
    cases u? <;> infer_instance
  | slot _ | registry | nowhere => infer_instance

theorem lt_top_of_place {f : Frame} {i : Int} {s : Nat} (h : f.place i = .slot s) : s < f.top := by
  unfold Frame.place at h
  split at h
  · cases h
  · split at h
    · cases h
    · dsimp only at h
      split at h
      · cases h
        omega
      · cases h

theorem kept_storeAt {i : Int} {s : Nat} (v : Value) {r y m}
    (hp : (m.frameAt r).place i = .slot s) (h : K r y m) : K r y (m.modifyTop r (·.setSlot s v)) := by
  let g : Frame → Frame := fun f => if s < f.top then f.setSlot s v else f
  have : Frame.Discreet g :=
    { origin f := by dsimp only [g]; split <;> rfl
      guard f := by dsimp only [g]; split <;> rfl
      captured f := by dsimp only [g]; split <;> rfl
      negated f := by dsimp only [g]; split <;> rfl }
  have : Frame.Neat g := ⟨fun {f} hf => by
    dsimp only [g]
    split
    · next hs => exact hf.setSlot hs v
    · exact hf⟩
  have hg : (m.frameAt r).setSlot s v = g (m.frameAt r) := (if_pos (lt_top_of_place hp)).symm
  rw [Machine.modifyTop_congr hg]
  exact hK.neat g h

instance keeps_storeAt (i : Int) (v : Value) : Keeps K (storeAt i v) where
  ends m h := by
    change Outcome.Ends K m.running ((match m.frame.place i with
      | .slot i => modifyFrame (·.setSlot i v)
      | .upvalue u => (do
        match ← read (·.ownUpvalue? u) with
        | some u => writeUpvalue u v
        | none => pure ())
      | .registry | .nowhere => pure () : Exec Unit) m)
    cases hp : m.frame.place i with
    | slot s => exact ⟨rfl, kept_storeAt v hp h⟩
    | upvalue u =>
      refine (Keeps.bind inferInstance fun u? => ?_ : Keeps K (_ >>= _)).ends m h
      cases u? <;> infer_instance
    | registry | nowhere => exact (keeps_pure ()).ends m h

instance keeps_kindAt (i : Int) : Keeps K (kindAt i) := by
  unfold kindAt
  infer_instance

instance keeps_copy (source target : Int) : Keeps K (copy source target) := by
  unfold copy
  infer_instance

instance keeps_pushValue (i : Int) : Keeps K (pushValue i) := by
  unfold pushValue
  infer_instance

instance keeps_replace (i : Int) : Keeps K (replace i) := by
  unfold replace
  infer_instance

instance keeps_rotate (i n : Int) : Keeps K (rotate i n) := by
  unfold rotate
  infer_instance

instance keeps_insert (i : Int) : Keeps K (insert i) := keeps_rotate i 1

instance keeps_remove (i : Int) : Keeps K (remove i) := by
  unfold remove
  infer_instance

instance keeps_setTop (i : Int) : Keeps K (setTop i) := keeps_modifyNeat _

end Stack

section Argument

variable {K : Condition} [K.Neat] {α : Type}

instance keeps_callerError (text : String) : Keeps K (callerError text : Exec α) := by
  unfold callerError Machine.callerError
  exact ⟨fun _ h => ⟨rfl, h⟩⟩

instance keeps_argumentError (i : Int) (text : String) :
    Keeps K (argumentError i text : Exec α) := by
  unfold argumentError Machine.argumentError Machine.callerError
  exact ⟨fun _ h => ⟨rfl, h⟩⟩

instance keeps_typeError (i : Int) (expected : String) : Keeps K (typeError i expected : Exec α) := by
  unfold typeError
  infer_instance

instance keeps_checkThat (holds : Bool) (i : Int) (text : String) :
    Keeps K (checkThat holds i text) := by
  unfold checkThat
  infer_instance

instance keeps_checkAny (i : Int) : Keeps K (checkAny i) := by
  unfold checkAny
  infer_instance

instance keeps_checkKind (i : Int) (kind : Kind) : Keeps K (checkKind i kind) := by
  unfold checkKind
  infer_instance

instance keeps_checkInt (i : Int) : Keeps K (checkInt i) := by
  unfold checkInt
  refine Keeps.bind inferInstance fun v => ?_
  cases v.toInt64? <;> infer_instance

instance keeps_checkNumber (i : Int) : Keeps K (checkNumber i) := by
  unfold checkNumber
  refine Keeps.bind inferInstance fun v => ?_
  cases v.toDouble? <;> infer_instance

instance keeps_toStringAt (i : Int) : Keeps K (toStringAt? i) := by
  unfold toStringAt?
  refine Keeps.bind inferInstance fun v => ?_
  cases v <;> infer_instance

instance keeps_checkString (i : Int) : Keeps K (checkString i) := by
  unfold checkString
  refine Keeps.bind inferInstance fun s => ?_
  cases s <;> infer_instance

instance keeps_isAbsent (i : Int) : Keeps K (isAbsent i) := by
  unfold isAbsent
  infer_instance

instance keeps_optional (i : Int) (default : α) (check : Int → Exec α) [Keeps K (check i)] :
    Keeps K (optional i default check) := by
  unfold optional
  infer_instance

end Argument

section Start

variable {K : Condition} (re : Reentry) [hre : re.Starts K]

instance keeps_enterCall (nargs : Nat) (wanted : Int) (a c : Nat) :
    Keeps K (enter re nargs wanted (.call a c)) := hre.enter _ _ _ (by simp)

instance keeps_enterIterator (nargs : Nat) (wanted : Int) (a c : Nat) :
    Keeps K (enter re nargs wanted (.iterator a c)) := hre.enter _ _ _ (by simp)

instance keeps_guardedCall (handler : Option Value) : Keeps K (guardedCall re handler) :=
  hre.guardedCall handler

end Start

section Handler

variable {K : Condition} [K.Tidy] (re : Reentry)

theorem keeps_callHandlerOf {handler : Value} {args : List Value} {wantsResult : Bool}
    (hc : ∀ nargs wanted, Keeps K (call re nargs wanted))
    (hy : ∀ nargs wanted, Keeps K (callYieldable re nargs wanted)) :
    Keeps K (callHandler re handler args wantsResult) := by
  have : Keeps K inBytecode := keeps_read _
  unfold callHandler
  infer_instance

end Handler

section Resume

variable {K : Condition} (re : Reentry) [hre : re.Safe K] (source : Option ThreadId) (nargs : Nat)

instance keeps_resume : Keeps K (Exec.resume re source nargs) := (hre.resume source nargs).ofQuiet

instance keeps_resumeAway : Keeps K.away (Exec.resume re source nargs) :=
  (hre.resume source nargs).awayOfQuiet

end Resume

section Metamethod

variable {K : Condition} [K.Tidy] (re : Reentry) [hre : re.Calls K]

instance keeps_call (nargs : Nat) (wanted : Int) : Keeps K (call re nargs wanted) := hre.call ..

instance keeps_hostPcall (nargs : Nat) (wanted handler : Int) :
    Keeps K (Exec.pcall re nargs wanted handler) := hre.pcall ..

instance keeps_callHandler (handler : Value) (args : List Value) (wantsResult : Bool) :
    Keeps K (callHandler re handler args wantsResult) := hre.callHandler ..

instance keeps_callBinary (a b : Value) (e : Event) : Keeps K (callBinary? re a b e) := by
  unfold callBinary?
  infer_instance

instance keeps_indexChain (n : Nat) (v k : Value) : Keeps K (indexChain re n v k) := by
  induction n generalizing v with
  | zero => exact keeps_fault _
  | succ n ih =>
    unfold indexChain
    refine Keeps.bind inferInstance fun s => ?_
    cases s with
    | handler h => cases h <;> first | exact ih _ | infer_instance
    | found _ | absent | stuck => infer_instance

instance keeps_index (v k : Value) : Keeps K (index re v k) := by
  unfold index
  infer_instance

instance keeps_assignChain (n : Nat) (v k x : Value) : Keeps K (assignChain re n v k x) := by
  induction n generalizing v with
  | zero => exact keeps_fault _
  | succ n ih =>
    unfold assignChain
    refine Keeps.bind inferInstance fun s => ?_
    cases s with
    | handler h => cases h <;> first | exact ih _ | infer_instance
    | store _ | stuck => infer_instance

instance keeps_assign (v k x : Value) : Keeps K (assign re v k x) := by
  unfold assign
  infer_instance

instance keeps_arith (op : Operator) (a b : Value) : Keeps K (arith re op a b) := by
  unfold arith
  split
  · infer_instance
  · infer_instance
  · refine Keeps.bind inferInstance fun r => ?_
    cases r <;> infer_instance

instance keeps_equals (a b : Value) : Keeps K (equals re a b) := by
  unfold equals
  split <;> infer_instance

instance keeps_lessThan (a b : Value) : Keeps K (lessThan re a b) := by
  unfold lessThan
  split
  · infer_instance
  · refine Keeps.bind inferInstance fun r => ?_
    cases r <;> infer_instance

theorem keeps_notGreater_from (a b : Value) (m : Machine) (hm : K m.running false m) :
    (notGreater re a b m).Ends K m.running := by
  have hx : Keeps K (callBinary? re b a .lt) := inferInstance
  have hm' : K m.running false (m.modifyTop m.running fun f => { f with negated := true }) :=
    Condition.Tidy.top _ _ hm
  have h := hx.ends (m.modifyTop m.running _) hm'
  change Outcome.Ends K m.running (((attempt (callBinary? re b a .lt))
    (m.modifyTop m.running fun f => { f with negated := true })).andThen _)
  unfold attempt
  cases hr : callBinary? re b a .lt (m.modifyTop m.running fun f => { f with negated := true }) with
  | exhausted => trivial
  | done v m₁ =>
    rw [hr] at h
    have h₁ := Condition.Tidy.frame m m₁ (fun f => { f with negated := false }) hm h.2
    cases v with
    | none => exact ⟨h.1, h₁⟩
    | some v => exact ⟨h.1, h₁⟩
  | raised e m₁ =>
    rw [hr] at h
    have h₁ := Condition.Tidy.frame m m₁ (fun f => { f with negated := false }) hm h.2
    cases e with
    | yield => exact h
    | fault _ _ | unknownKey | thrown _ | handlerFailed | outOfMemory => exact ⟨h.1, h₁⟩

instance keeps_notGreater (a b : Value) : Keeps K (notGreater re a b) :=
  ⟨keeps_notGreater_from re a b⟩

instance keeps_lessEqual (a b : Value) : Keeps K (lessEqual re a b) := by
  unfold lessEqual
  split
  · infer_instance
  · refine Keeps.bind inferInstance fun r => ?_
    cases r <;> infer_instance

instance keeps_compare (c : Comparison) (a b : Value) : Keeps K (compare re c a b) := by
  unfold compare
  split <;> infer_instance

instance keeps_length (v : Value) : Keeps K (length re v) := by
  unfold length
  split
  · infer_instance
  · refine Keeps.bind inferInstance fun h => ?_
    split <;> infer_instance

instance keeps_concatPair (a b : Value) : Keeps K (concatPair re a b) := by
  unfold concatPair
  split
  · infer_instance
  · refine Keeps.bind inferInstance fun r => ?_
    cases r <;> infer_instance

instance keeps_tostring (v : Value) : Keeps K (Exec.tostring re v) := by
  unfold Exec.tostring
  refine Keeps.bind inferInstance fun h => ?_
  split
  · split <;> infer_instance
  · refine Keeps.bind inferInstance fun r => ?_
    split <;> infer_instance

end Metamethod

end Exec
end LuaMachine
