import LuaMachine.Host
import LuaMachine.Proofs.Invariant.Library

namespace LuaMachine

mutual

def Operation.failures : Operation → List Error
  | .call (.fail e) => [e]
  | .within _ operations => failuresOf operations
  | .attempt operation => operation.failures
  | _ => []

def Operation.failuresOf : List Operation → List Error
  | [] => []
  | operation :: rest => operation.failures ++ Operation.failuresOf rest

end

theorem Operation.mem_failuresOf {operations : List Operation} {op : Operation} {e : Error}
    (ho : op ∈ operations) (he : e ∈ op.failures) : e ∈ failuresOf operations := by
  induction operations with
  | nil => cases ho
  | cons first rest ih =>
    rw [failuresOf, List.mem_append]
    rcases List.mem_cons.mp ho with rfl | ho
    · exact .inl he
    · exact .inr (ih ho)

mutual

def Command.failures : Command → List Error
  | .perform operation => operation.failures
  | .report _ command => command.failures
  | .attempt command => command.failures
  | .ret _ | .retAll => []
  | .repeated _ commands => Command.failuresOf commands

def Command.failuresOf : List Command → List Error
  | [] => []
  | command :: rest => command.failures ++ Command.failuresOf rest

end

mutual

def Command.operations : Command → List Operation
  | .perform operation => [operation]
  | .report _ command => command.operations
  | .attempt command => command.operations
  | .ret _ | .retAll => []
  | .repeated _ commands => Command.operationsOf commands

def Command.operationsOf : List Command → List Operation
  | [] => []
  | command :: rest => command.operations ++ Command.operationsOf rest

end

mutual

theorem Command.failures_eq (command : Command) :
    command.failures = command.operations.flatMap Operation.failures := by
  match command with
  | .perform operation =>
    rw [failures, operations, List.flatMap_cons, List.flatMap_nil, List.append_nil]
  | .report _ command | .attempt command =>
    rw [failures, operations]
    exact Command.failures_eq command
  | .ret _ | .retAll => rfl
  | .repeated _ commands =>
    rw [failures, operations]
    exact Command.failuresOf_eq commands

theorem Command.failuresOf_eq (commands : List Command) :
    Command.failuresOf commands = (Command.operationsOf commands).flatMap Operation.failures := by
  match commands with
  | [] => rfl
  | command :: rest =>
    rw [failuresOf, operationsOf, List.flatMap_append, Command.failures_eq command,
      Command.failuresOf_eq rest]

end

def Host.failures (host : Host) : List Error := host.scripts.toList.flatMap Command.failuresOf

/-- Scripts yield by the operation for it only. -/
def Host.Honest (host : Host) : Prop := Error.yield ∉ host.failures

def Host.operations (host : Host) : List Operation :=
  host.scripts.toList.flatMap Command.operationsOf

/-- Whether a function may do this without resuming the thread that it runs in. What is done in a thread
that it takes up is done in another one. -/
def Operation.isTactful : Operation → Bool
  | .call (.resumeRunning _) => false
  | .attempt operation => operation.isTactful
  | _ => true

def Host.Tactful (host : Host) : Prop := ∀ op ∈ host.operations, op.isTactful = true

instance (host : Host) : Decidable host.Tactful :=
  inferInstanceAs (Decidable (∀ op ∈ host.operations, op.isTactful = true))

/-- What is done in another thread that is taken up keeps the condition, be it a resume or that values are
moved between the two. -/
class Reentry.Lends (K : Condition) (re : Reentry) : Prop where
  resume : ∀ t source nargs, Exec.Keeps K (Exec.inThreadOrBusy t (Exec.resumeReply re source nargs))
  move : ∀ t source target n,
    Exec.Keeps K (Exec.inThreadOrBusy t (Exec.silent (Exec.moveBetween source target n)))

namespace Exec

variable {K : Condition}

section Reply

variable [K.Tidy]

instance keeps_silent (x : Exec Unit) [Keeps K x] : Keeps K (silent x) := by
  unfold silent
  infer_instance

instance keeps_present (reply : Reply) : Keeps K (present reply) := keeps_modify _

instance keeps_record (script : Nat) (label : String) (content : Reply) :
    Keeps K (record script label content) := by
  unfold record
  infer_instance

instance keeps_predicatesAt (i : Int) : Keeps K (predicatesAt i) := by
  unfold predicatesAt
  infer_instance

instance keeps_performStack (op : StackOperation) : Keeps K (performStack op) := by
  unfold performStack
  cases op with
  | dump i =>
    refine Keeps.bind inferInstance fun v => ?_
    cases v <;> infer_instance
  | _ => infer_instance

instance keeps_traverseFrom (i : Int) (n : Nat) : Keeps K (traverseFrom i n) := by
  induction n with
  | zero => exact keeps_pure []
  | succ n ih =>
    unfold traverseFrom
    infer_instance

instance keeps_traverse (i : Int) : Keeps K (traverse i) := by
  unfold traverse
  refine Keeps.bind inferInstance fun i => Keeps.bind inferInstance fun v => ?_
  cases v <;> infer_instance

instance keeps_withThreadAt (i : Int) (f : ThreadId → Exec Reply) [∀ t, Keeps K (f t)] :
    Keeps K (withThreadAt i f) := by
  unfold withThreadAt
  refine Keeps.bind inferInstance fun v => ?_
  cases v <;> infer_instance

instance keeps_observed (x : Exec Reply) [hx : Keeps K x] : Keeps K.away (observed x) := by
  unfold observed
  refine Keeps.bind inferInstance fun start => Keeps.attemptAway hx fun r =>
    Keeps.bind inferInstance fun entries => Keeps.bind inferInstance fun _ =>
    Keeps.bind inferInstance fun frame => ?_
  cases r <;> infer_instance

instance keeps_answering {α : Type} (answer : Error → α) (x : Exec α) [hx : Keeps K x] :
    Keeps K (answering answer x) := by
  unfold answering
  refine Keeps.attempt hx (fun a => keeps_pure a) fun e => ?_
  cases e with
  | yield => exact Settles.raise .yield
  | fault _ _ | unknownKey | thrown _ | handlerFailed | outOfMemory =>
    exact ⟨fun _ h => ⟨rfl, h⟩⟩

end Reply

instance keeps_inThreadOrBusy (t : ThreadId) (x : Exec Reply) [K.Stable] [Keeps K.away x] :
    Keeps K (inThreadOrBusy t x) := by
  unfold inThreadOrBusy
  infer_instance

variable (re : Reentry)

section Table

variable [K.Tidy] [re.Calls K]

instance keeps_performTable (op : TableOperation) : Keeps K (performTable re op) := by
  unfold performTable
  cases op <;> infer_instance

instance keeps_performLibrary (op : LibraryOperation) : Keeps K (performLibrary re op) := by
  unfold performLibrary
  cases op <;> infer_instance

end Table

section Resume

variable [K.Tidy] [re.Calls K]

/-- No operation but one of a script that is not tactful resumes the thread that it is performed in. -/
theorem keeps_performCall [hl : re.Lends K] [hy : K.Yields] (outer : Option ThreadId) (op : CallOperation)
    (hr : (Operation.call op).isTactful = true ∨ ∀ source nargs, Keeps K (resumeReply re source nargs))
    (h : ∀ e ∈ (Operation.call op).failures, Lax K e) : Keeps K (performCall re outer op) := by
  cases op with
  | fail e =>
    have := h e (by simp [Operation.failures])
    exact keeps_raise e
  | yield n => exact hy.yields n
  | resume i nargs withSource =>
    have hx (here t : ThreadId) : Keeps K
        (inThreadOrBusy t (resumeReply re (if withSource then some here else none) nargs)) :=
      hl.resume t _ nargs
    unfold performCall
    infer_instance
  | moveTo i n | moveFrom i n =>
    have hx := hl.move
    unfold performCall
    infer_instance
  | resumeRunning nargs => exact (hr.resolve_left Bool.false_ne_true) outer nargs
  | _ =>
    unfold performCall
    infer_instance

end Resume

instance keeps_resumeReply [K.Tidy] [re.Safe K] (source : Option ThreadId) (nargs : Nat) :
    Keeps K (resumeReply re source nargs) := by
  unfold resumeReply
  infer_instance

section Resume

variable [K.Stable] [re.Safe K]

instance keeps_resumeReplyAway (source : Option ThreadId) (nargs : Nat) :
    Keeps K.away (resumeReply re source nargs) := by
  unfold resumeReply
  infer_instance

instance lends_safe : re.Lends K where
  resume _ _ _ := inferInstance
  move _ _ _ _ := inferInstance

end Resume

/-- The error of an operation is shown, and the next one is performed whatever it has been. -/
theorem keeps_performEach [K.Tidy] (outer : Option ThreadId) (operations : List Operation)
    (h : ∀ op ∈ operations, Keeps K (perform re outer op)) :
    Keeps K.away (performAll re outer operations) := by
  induction operations with
  | nil =>
    unfold performAll
    exact keeps_pure []
  | cons op rest ih =>
    have ho := h op List.mem_cons_self
    have hr := ih fun op ho => h op (List.mem_cons_of_mem _ ho)
    unfold performAll
    infer_instance

theorem keeps_perform [K.Stable] [re.Safe K] [K.Yields] (outer : Option ThreadId) (op : Operation)
    (h : ∀ e ∈ op.failures, Lax K e) : Keeps K (perform re outer op) := by
  match op with
  | .stack op => exact keeps_performStack op
  | .table op => exact keeps_performTable re op
  | .call op => exact keeps_performCall re outer op (.inr inferInstance) h
  | .library op => exact keeps_performLibrary re op
  | .within i operations =>
    have hall (here : ThreadId) : Keeps K.away (performAll re (some here) operations) :=
      keeps_performEach re (some here) operations fun op ho =>
        keeps_perform (some here) op fun e he => h e (Operation.mem_failuresOf ho he)
    unfold perform
    infer_instance
  | .attempt op =>
    have ho := keeps_perform outer op h
    unfold perform
    infer_instance

section Script

theorem keeps_unlessEnded {x rest : Exec Progress} (hx : Keeps K x) (hr : Keeps K rest) :
    Keeps K (unlessEnded x rest) := by
  unfold unlessEnded
  refine Keeps.bind hx fun p => ?_
  cases p <;> infer_instance

theorem keeps_repeatUntilEnd {x : Exec Progress} (hx : Keeps K x) (n : Nat) :
    Keeps K (repeatUntilEnd x n) := by
  induction n with
  | zero => exact keeps_pure _
  | succ n ih => exact keeps_unlessEnded hx ih

mutual

theorem keeps_runCommand [K.Tidy] (script : Nat) (command : Command)
    (h : ∀ op ∈ command.operations, Keeps K (perform re none op)) :
    Keeps K (runCommand re script command) := by
  match command with
  | .perform op =>
    unfold runCommand
    have ho := h op (by simp [Command.operations])
    infer_instance
  | .report label command =>
    unfold runCommand
    refine Keeps.bind (keeps_runCommand script command h) fun p => ?_
    cases p <;> infer_instance
  | .attempt command =>
    unfold runCommand
    have hc := keeps_runCommand script command h
    infer_instance
  | .ret n | .retAll =>
    unfold runCommand
    infer_instance
  | .repeated n commands =>
    unfold runCommand
    exact keeps_repeatUntilEnd (keeps_runCommands script commands h) n

theorem keeps_runCommands [K.Tidy] (script : Nat) (commands : List Command)
    (h : ∀ op ∈ Command.operationsOf commands, Keeps K (perform re none op)) :
    Keeps K (runCommands re script commands) := by
  match commands with
  | [] =>
    unfold runCommands
    infer_instance
  | command :: rest =>
    unfold runCommands
    exact keeps_unlessEnded
      (keeps_runCommand script command fun op ho => h op (by simp [Command.operationsOf, ho]))
      (keeps_runCommands script rest fun op ho => h op (by simp [Command.operationsOf, ho]))

end

theorem keeps_runScript [K.Tidy] (number : Nat) (script : Script)
    (h : ∀ op ∈ Command.operationsOf script, Keeps K (perform re none op)) :
    Keeps K (runScript re number script) := by
  unfold runScript
  refine Keeps.bind inferInstance fun _ => Keeps.bind inferInstance fun _ =>
    Keeps.bind (keeps_runCommands re number script h) fun p => ?_
  cases p <;> infer_instance

end Script
end Exec

theorem Host.failures_eq (host : Host) :
    host.failures = host.operations.flatMap Operation.failures := by
  rw [failures, operations, List.flatMap_assoc]
  exact congrArg (fun f => host.scripts.toList.flatMap f) (funext Command.failuresOf_eq)

theorem Host.keeps_scripts {K : Condition} [K.Tidy] [K.Yields] (host : Host) (re : Reentry)
    [re.Calls K] [re.Resumes K] (h : ∀ op ∈ host.operations, Exec.Keeps K (Exec.perform re none op))
    (f : Native) (hs : f.protects = true → re.Starts K) : Exec.Keeps K (host.native re f) := by
  cases f with
  | builtin f => exact keeps_builtin re f hs
  | script n =>
    refine Exec.keeps_runScript re n _ fun op ho => h op ?_
    by_cases hn : n < host.scripts.size
    · rw [Array.getD_eq_getD_getElem?, Array.getElem?_eq_getElem hn] at ho
      exact List.mem_flatMap.mpr ⟨_, Array.mem_toList_iff.mpr (Array.getElem_mem hn), ho⟩
    · rw [Array.getD_eq_getD_getElem?, Array.getElem?_eq_none (by omega)] at ho
      simp [Command.operationsOf] at ho

theorem Host.keeps_native {K : Condition} [K.Stable] [K.Yields] (host : Host) (re : Reentry)
    [re.Safe K] (h : ∀ e ∈ host.failures, Exec.Lax K e) (f : Native)
    (hs : f.protects = true → re.Starts K) : Exec.Keeps K (host.native re f) :=
  host.keeps_scripts re (fun op ho => Exec.keeps_perform re none op fun e he => h e (by
    rw [host.failures_eq]
    exact List.mem_flatMap.mpr ⟨op, ho, he⟩)) f hs

end LuaMachine
