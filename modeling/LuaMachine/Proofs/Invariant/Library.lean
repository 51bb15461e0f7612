import LuaMachine.Proofs.Invariant.Operations

namespace LuaMachine

class Reentry.Resumes (K : Condition) (re : Reentry) : Prop where
  resumeThread : ∀ t nargs, Exec.Keeps K (Library.Coroutine.resumeThread re t nargs)

instance Exec.keeps_moveBetween {K : Condition} [hK : K.Tidy] (source target : ThreadId) (n : Nat) :
    Keeps K (moveBetween source target n) where
  ends m h := by
    have h₁ := hK.top source (·.drop n) (kept_running source h)
    have h₂ := hK.top target (·.pushAll (({ m with running := source } : Machine).frame.topValues n))
      (kept_running target h₁)
    exact ⟨rfl, kept_running m.running h₂⟩

namespace Library.Coroutine

open Exec

variable {K : Condition} (re : Reentry)

def resumeLent (s t : ThreadId) (nargs : Nat) : Exec (Except Value Nat) := do
  if !(← checkStack nargs) then
    return .error (.ofString "too many arguments to resume")
  moveBetween s t nargs
  let (status, n) ← Exec.resume re (some s) nargs
  match status with
  | .ok | .yield =>
    let fits : Bool ← read fun m => (m.frameAt s).top + (n + 1) ≤ m.limits.stackSize
    if fits then
      moveBetween t s n
      return .ok n
    else
      drop n
      return .error (.ofString "too many results to resume")
  | _ => return .error (← pop)

/-- Whether a thread could be taken up, and if so, what has come of it. -/
def reportLent (nargs : Nat) (outcome : Option (Except Value Nat)) : Exec (Except Value Nat) := do
  match outcome with
  | some result => return result
  | none =>
    drop nargs
    return .error (.ofString "cannot resume non-suspended coroutine")

theorem resumeThread_eq (t : ThreadId) (nargs : Nat) (m : Machine) : resumeThread re t nargs m =
    (inThread t (resumeLent re m.running t nargs) m).andThen (reportLent nargs) := rfl

instance keeps_reportLent [K.Tidy] (nargs : Nat) (outcome : Option (Except Value Nat)) :
    Keeps K (reportLent nargs outcome) := by
  unfold reportLent
  cases outcome <;> infer_instance

theorem resumes_of_lent [K.Tidy] (h : ∀ {m : Machine} (t nargs), K m.running false m →
    (inThread t (resumeLent re m.running t nargs) m).Ends K m.running) : re.Resumes K where
  resumeThread t nargs := ⟨fun m hm => by
    rw [resumeThread_eq]
    exact ends_andThen (h t nargs hm) fun outcome _ hr hm' =>
      (keeps_reportLent nargs outcome).endsIn hr hm'⟩

theorem keeps_resumeLent [K.Tidy] [∀ source nargs, Keeps K (Exec.resume re source nargs)]
    (s t : ThreadId) (nargs : Nat) : Keeps K (resumeLent re s t nargs) := by
  unfold resumeLent
  refine Keeps.bind inferInstance fun fits => @keeps_ite _ _ _ _ _ _ inferInstance ?_
  refine Keeps.bind inferInstance fun _ => Keeps.bind inferInstance fun p => ?_
  dsimp only
  split <;> infer_instance

instance resumes_safe [hs : K.Stable] [re.Safe K] : re.Resumes K :=
  resumes_of_lent re fun {m} t nargs =>
    (hs.inThread t _ (keeps_resumeLent (K := K.away) re m.running t nargs)).ofQuiet.ends m

instance keeps_resumeThread (t : ThreadId) (nargs : Nat) [hr : re.Resumes K] :
    Keeps K (resumeThread re t nargs) := hr.resumeThread t nargs

end Library.Coroutine

variable {K : Condition} [K.Tidy] (re : Reentry) [re.Calls K]

namespace Exec

instance keeps_tableAt (i : Int) : Keeps K (tableAt i) := by
  unfold tableAt
  refine Keeps.bind inferInstance fun v => ?_
  cases v <;> infer_instance

instance keeps_pushWithKind (v : Value) : Keeps K (pushWithKind v) := by
  unfold pushWithKind
  infer_instance

instance keeps_pushIndexed (v k : Value) : Keeps K (pushIndexed re v k) := by
  unfold pushIndexed
  infer_instance

instance keeps_getTable (i : Int) : Keeps K (getTable re i) := by
  unfold getTable
  infer_instance

instance keeps_getField (i : Int) (name : Bytes) : Keeps K (getField re i name) := by
  unfold getField
  infer_instance

instance keeps_getIndex (i : Int) (n : Int64) : Keeps K (getIndex re i n) := by
  unfold getIndex
  infer_instance

instance keeps_rawGet (i : Int) : Keeps K (rawGet i) := by
  unfold rawGet
  infer_instance

instance keeps_rawGetIndex (i : Int) (n : Int64) : Keeps K (rawGetIndex i n) := by
  unfold rawGetIndex
  infer_instance

instance keeps_getGlobal (name : Bytes) : Keeps K (getGlobal re name) := by
  unfold getGlobal
  infer_instance

instance keeps_setTable (i : Int) : Keeps K (setTable re i) := by
  unfold setTable
  infer_instance

instance keeps_setField (i : Int) (name : Bytes) : Keeps K (setField re i name) := by
  unfold setField
  infer_instance

instance keeps_setIndex (i : Int) (n : Int64) : Keeps K (setIndex re i n) := by
  unfold setIndex
  infer_instance

instance keeps_rawSet (i : Int) : Keeps K (rawSet i) := by
  unfold rawSet
  infer_instance

instance keeps_rawSetIndex (i : Int) (n : Int64) : Keeps K (rawSetIndex i n) := by
  unfold rawSetIndex
  infer_instance

instance keeps_setGlobal (name : Bytes) : Keeps K (setGlobal re name) := by
  unfold setGlobal
  infer_instance

instance keeps_nextEntry (i : Int) : Keeps K (nextEntry i) := by
  unfold nextEntry
  refine Keeps.bind inferInstance fun t => Keeps.bind inferInstance fun k =>
    Keeps.bind inferInstance fun p => Keeps.bind inferInstance fun _ => ?_
  cases p.2 <;> infer_instance

instance keeps_getMetatable (i : Int) : Keeps K (getMetatable i) := by
  unfold getMetatable
  refine Keeps.bind inferInstance fun v => Keeps.bind inferInstance fun t => ?_
  cases t <;> infer_instance

instance keeps_setMetatableOf (v : Value) (metatable : Option TableId) :
    Keeps K (setMetatableOf v metatable) := by
  unfold setMetatableOf
  split <;> infer_instance

instance keeps_setMetatable (i : Int) : Keeps K (setMetatable i) := by
  unfold setMetatable
  refine Keeps.bind inferInstance fun v => Keeps.bind inferInstance fun t => ?_
  cases t <;> infer_instance

instance keeps_getMetafield (i : Int) (name : Bytes) : Keeps K (getMetafield i name) := by
  unfold getMetafield
  refine Keeps.bind inferInstance fun v => Keeps.bind inferInstance fun field => ?_
  split <;> infer_instance

instance keeps_callMetafield (i : Int) (name : Bytes) : Keeps K (callMetafield re i name) := by
  unfold callMetafield
  infer_instance

instance keeps_arithTop (op : Operator) : Keeps K (arithTop re op) := by
  unfold arithTop
  infer_instance

instance keeps_compareAt (i j : Int) (c : Comparison) : Keeps K (compareAt re i j c) := by
  unfold compareAt
  infer_instance

instance keeps_rawEqualAt (i j : Int) : Keeps K (rawEqualAt i j) := by
  unfold rawEqualAt
  infer_instance

instance keeps_lengthAt (i : Int) : Keeps K (lengthAt re i) := by
  unfold lengthAt
  infer_instance

instance keeps_concatPairs (n : Nat) : Keeps K (concatPairs re n) := by
  induction n with
  | zero => exact keeps_pure ()
  | succ n ih =>
    unfold concatPairs
    infer_instance

instance keeps_concat (n : Nat) : Keeps K (Exec.concat re n) := by
  unfold Exec.concat
  infer_instance

instance keeps_pushNumeral (s : Bytes) : Keeps K (pushNumeral s) := by
  unfold pushNumeral
  split <;> infer_instance

instance keeps_rawLength (i : Int) : Keeps K (rawLength i) := by
  unfold rawLength
  refine Keeps.bind inferInstance fun v => ?_
  cases v <;> infer_instance

instance keeps_integerLength (i : Int) : Keeps K (integerLength re i) := by
  unfold integerLength
  refine Keeps.bind inferInstance fun _ => Keeps.bind inferInstance fun v => ?_
  cases v.toInt64? <;> infer_instance

instance keeps_pushText (i : Int) : Keeps K (pushText re i) := by
  unfold pushText
  infer_instance

instance keeps_load (p : Prototype) : Keeps K (load p) := by
  unfold load
  infer_instance

instance keeps_pushClosure (f : Native) (n : Nat) : Keeps K (pushClosure f n) := by
  unfold pushClosure
  infer_instance

instance keeps_registerNative (name : Bytes) (f : Native) : Keeps K (registerNative re name f) := by
  unfold registerNative
  infer_instance

set_option synthInstance.maxSize 512 in
instance keeps_getSubtable (i : Int) (name : Bytes) : Keeps K (getSubtable re i name) := by
  unfold getSubtable
  infer_instance

set_option synthInstance.maxSize 512 in
instance keeps_require (name : Bytes) (opener : Native) (global : Bool) :
    Keeps K (require re name opener global) := by
  unfold require
  dsimp only
  refine Keeps.bind inferInstance fun _ => Keeps.bind inferInstance fun _ =>
    Keeps.bind inferInstance fun v => ?_
  split
  · refine Keeps.bind inferInstance fun _ => Keeps.bind inferInstance fun _ =>
      Keeps.bind inferInstance fun _ => Keeps.bind inferInstance fun _ => ?_
    infer_instance
  · infer_instance

instance keeps_setFunctions (functions : List (Bytes × Native)) (n : Nat) :
    Keeps K (setFunctions re functions n) := by
  unfold setFunctions
  infer_instance

instance keeps_newLibrary (functions : List (Bytes × Native)) :
    Keeps K (newLibrary re functions) := by
  unfold newLibrary
  infer_instance

instance keeps_createThread : Keeps K createThread := by
  unfold createThread
  infer_instance

instance keeps_pushThread : Keeps K pushThread := by
  unfold pushThread
  infer_instance

instance keeps_isYieldable : Keeps K isYieldable := keeps_read _

end Exec

namespace Library

open Exec

instance keeps_print : Keeps K (Base.print re) := by
  unfold Base.print
  infer_instance

instance keeps_type : Keeps K Base.type := by
  unfold Base.type
  infer_instance

instance keeps_tostring : Keeps K (Base.tostring re) := by
  unfold Base.tostring
  infer_instance

instance keeps_tonumberPlain : Keeps K Base.tonumberPlain := by
  unfold Base.tonumberPlain
  refine Keeps.bind inferInstance fun v => ?_
  cases v <;> infer_instance

instance keeps_tonumberBase : Keeps K Base.tonumberBase := by
  unfold Base.tonumberBase
  refine Keeps.bind inferInstance fun _ => Keeps.bind inferInstance fun _ =>
    Keeps.bind inferInstance fun _ => Keeps.bind inferInstance fun v => ?_
  cases v <;> infer_instance

instance keeps_tonumber : Keeps K Base.tonumber := by
  unfold Base.tonumber
  infer_instance

instance keeps_rawget : Keeps K Base.rawget := by
  unfold Base.rawget
  infer_instance

instance keeps_rawset : Keeps K Base.rawset := by
  unfold Base.rawset
  infer_instance

instance keeps_rawequal : Keeps K Base.rawequal := by
  unfold Base.rawequal
  infer_instance

instance keeps_rawlen : Keeps K Base.rawlen := by
  unfold Base.rawlen
  infer_instance

set_option synthInstance.maxSize 512 in
instance keeps_setmetatable : Keeps K Base.setmetatable := by
  unfold Base.setmetatable
  dsimp only
  infer_instance

instance keeps_getmetatable : Keeps K Base.getmetatable := by
  unfold Base.getmetatable
  infer_instance

instance keeps_next : Keeps K Base.next := by
  unfold Base.next
  infer_instance

set_option synthInstance.maxSize 512 in
instance keeps_pairs : Keeps K (Base.pairs re) := by
  unfold Base.pairs
  dsimp only
  infer_instance

instance keeps_ipairsStep : Keeps K (Base.ipairsStep re) := by
  unfold Base.ipairsStep
  infer_instance

instance keeps_ipairs : Keeps K Base.ipairs := by
  unfold Base.ipairs
  infer_instance

instance keeps_select : Keeps K Base.select := by
  unfold Base.select
  refine Keeps.bind inferInstance fun n => Keeps.bind inferInstance fun v => ?_
  split <;> infer_instance

set_option synthInstance.maxSize 512 in
instance keeps_raiseAt (level : Int64) : Keeps K (Base.raiseAt re level) := by
  unfold Base.raiseAt
  dsimp only
  infer_instance

instance keeps_error : Keeps K (Base.error re) := by
  unfold Base.error
  infer_instance

set_option synthInstance.maxSize 512 in
instance keeps_assert : Keeps K (Base.assert re) := by
  unfold Base.assert
  infer_instance

instance keeps_pcall [re.Starts K] : Keeps K (Base.pcall re) := by
  unfold Base.pcall
  infer_instance

instance keeps_xpcall [re.Starts K] : Keeps K (Base.xpcall re) := by
  unfold Base.xpcall
  infer_instance

set_option synthInstance.maxSize 512 in
instance keeps_make : Keeps K (Base.make re) := by
  unfold Base.make
  infer_instance

namespace Coroutine

instance keeps_checkThread : Keeps K checkThread := by
  unfold checkThread
  refine Keeps.bind inferInstance fun v => ?_
  cases v <;> infer_instance

instance keeps_create : Keeps K create := by
  unfold create
  infer_instance

instance keeps_resume [re.Resumes K] : Keeps K (resume re) := by
  unfold resume
  refine Keeps.bind inferInstance fun t => Keeps.bind inferInstance fun n =>
    Keeps.bind inferInstance fun r => ?_
  cases r <;> infer_instance

instance keeps_wrapped [re.Resumes K] : Keeps K (wrapped re) := by
  unfold wrapped
  refine Keeps.bind inferInstance fun v => ?_
  cases v with
  | thread t =>
    refine Keeps.bind inferInstance fun n => Keeps.bind inferInstance fun r => ?_
    split <;> infer_instance
  | _ => infer_instance

instance keeps_wrap : Keeps K wrap := by
  unfold wrap
  infer_instance

instance keeps_status : Keeps K status := by
  unfold status
  infer_instance

instance keeps_running : Keeps K running := by
  unfold running
  infer_instance

instance keeps_isyieldable : Keeps K isyieldable := by
  unfold isyieldable
  infer_instance

instance keeps_make : Keeps K (make re) := by
  unfold make
  infer_instance

instance keeps_yield [hy : K.Yields] : Keeps K yield := by
  unfold yield
  exact Keeps.bind inferInstance fun n => hy.yields n

end Coroutine

instance keeps_openGlobally (library : Library) : Keeps K (library.openGlobally re) := by
  unfold openGlobally
  infer_instance

end Library

/-- Whether a native function calls its argument in protected mode. -/
def Native.protects : Native → Bool
  | .builtin .pcall | .builtin .xpcall => true
  | _ => false

theorem keeps_builtin [re.Resumes K] [K.Yields] (f : Builtin)
    (hs : (Native.builtin f).protects = true → re.Starts K) : Exec.Keeps K (f.run re) := by
  unfold Builtin.run
  cases f with
  | pcall | xpcall =>
    have := hs rfl
    infer_instance
  | _ => infer_instance

end LuaMachine
