import LuaMachine.Proofs.Concatenation.Yields

namespace LuaMachine

open Machine Exec

namespace Exec

def concatOnTop (re : Reentry) (n : Nat) : Exec Value := do
  concat re n
  read (·.frame.peek)

def executeInto (re : Reentry) (a : Nat) : Exec Value := do
  let _ ← execute re
  register a

variable {re : Reentry} {m m₁ : Machine} {base : Nat} {lefts : List Value} {right : Value}
  {i : Instruction}

theorem row_fetched (hm : m.Row base lefts right) (hf : fetch m = .done i m₁) :
    m₁.Row base lefts right := by
  rw [fetch_eq] at hf
  split at hf
  · cases hf
    exact hm.modifyTop (fun _ => rfl) rfl
  · cases hf

theorem execute_concat (re : Reentry) (hf : fetch m = .done i m₁) (ho : i.opcode? = some .concat) :
    execute re m = (do
      (Placement.registers i.b).join re (i.c - i.b)
      setRegister i.a (← register i.b)
      return none : Exec _) m₁ := by
  rw [execute_plain hf ho (by decide) rfl, plainInstruction, concatFrom_eq, bind_assoc]
  rfl

variable (hre : ∀ t, re.Shelters False t)
include hre

theorem concatOnTop_joins (hm : m.Row base lefts right) (ht : m.frame.top = base + lefts.length + 1) :
    Joins lefts right (Placement.stack.joints re lefts.length m)
      (concatOnTop re (lefts.length + 1) m).result? := by
  rw [concatOnTop, concat_eq]
  refine (Placement.invariant_stack hre base).result ⟨hm, ht⟩ fun v m' h => ⟨m', ?_⟩
  rw [run_read, Frame.peek_of_top h.2, h.1.right]

theorem executeInto_joins (hm : m.Row i.b lefts right) (hf : fetch m = .done i m₁)
    (ho : i.opcode? = some .concat) (hc : i.c = i.b + lefts.length) :
    Joins lefts right ((Placement.registers i.b).joints re lefts.length m₁)
      (executeInto re i.a m).result? := by
  have hx : executeInto re i.a m = (do
      (Placement.registers i.b).join re lefts.length
      setRegister i.a (← register i.b)
      register i.a : Exec _) m₁ := by
    rw [executeInto, run_bind, execute_concat re hf ho, hc, Nat.add_sub_cancel_left]
    exact andThen_andThen ..
  rw [hx]
  refine (Placement.invariant_registers hre i.b).result (row_fetched hm hf) fun v m' h => ?_
  have hv : (m'.modifyTop m'.running (·.setSlot i.a (m'.frame.slot i.b))).frame.slot i.a = v := by
    rw [h.active.frame_modifyTop, Frame.slot_setSlot, if_pos rfl]
    exact h.right
  exact ⟨_, congrArg (Outcome.done · _) hv⟩

end Exec

theorem Host.Completes.weaves {host : Host} (hh : host.Honest) {fuel stop : Nat} {lefts : List Value}
    {right : Value} {m m₁ m' : Machine} {i : Instruction} {p : Point} (ha : host.Arrives m)
    (hm : m.Row i.b lefts right) (hf : fetch m = .done i m₁) (ho : i.opcode? = some .concat)
    (hc : i.c = i.b + lefts.length) (hp : Point.Moves (host.reentry fuel) stop (.running m) p)
    (hd : host.Completes m.frameCount m' fuel stop p) :
    ∃ js m₂, Weaves host.Answers i.b lefts.length m₁ js m₂ ∧
      m' = m₂.modifyTop m₂.running (·.setSlot i.a (m₂.frame.slot i.b)) ∧
      Joins lefts right js (some (.ok (m'.frame.slot i.a))) := by
  have he : i.extension? = some .concat := by
    rw [Instruction.extension?, ho]
    rfl
  have hb := ha.between hh
  obtain ⟨answers, hd, -⟩ := hd.dialogue hh hb.runs.inner
    (follows_execute _ hb.runs.inner hf he hb.negated) hp (hb.attends hf) (hb.inquires hf .concat) he
  have hi := (fetched hb.runs.inner hf).2
  have hx : inquireFor i .concat m₁ = inquireConcat i.a i.b lefts.length m₁ := by
    rw [inquireFor, hc, Nat.add_sub_cancel_left]
  rw [hx] at hd
  obtain ⟨js, m₂, v, hw, hj, hr, rfl⟩ :=
    hd.weaves hh he (hb.attends hf) hi (row_fetched hm hf) hm.free
  have hv : m₂.frame.slot i.b = v := hr.right
  refine ⟨js, m₂, hw, rfl, ?_⟩
  rwa [hr.active.frame_modifyTop, Frame.slot_setSlot, if_pos rfl, hv]

theorem Machine.concatFinding_congr {m m' : Machine} (ht : m'.tables = m.tables)
    (hm : m'.metatables = m.metatables) (a b : Value) : m'.concatFinding a b = m.concatFinding a b := by
  have hh (v : Value) (e : Event) : m'.handler v e = m.handler v e := by
    unfold handler metatable table
    rw [ht, hm]
  unfold concatFinding binaryFinding binaryHandler
  rw [hh, hh]

theorem Machine.Row.ofValues {m : Machine} {base : Nat} {lefts : List Value} {right : Value}
    (hm : m.Active)
    (hv : (m.frame.values.drop base).take (lefts.length + 1) = (right :: lefts).reverse)
    (hf : ∀ s, base ≤ s → s < base + lefts.length → ¬m.Captured s) : m.Row base lefts right := by
  have hk (k : Nat) (v : Value) (h : (right :: lefts).reverse[k]? = some v) :
      base + k < m.frame.top ∧ m.frame.slot (base + k) = v := by
    rw [← hv, List.getElem?_take] at h
    split at h
    · rw [List.getElem?_drop, Frame.getElem?_values] at h
      split at h
      · next hl => exact ⟨hl, Option.some.inj h⟩
      · cases h
    · cases h
  have hr : (right :: lefts).reverse[lefts.length]? = some right := by
    rw [List.reverse_cons, ← List.length_reverse, List.getElem?_concat_length]
  refine ⟨⟨hm, fun k v h => (hk k v ?_).2, Nat.le_of_lt (hk _ _ hr).1, hf⟩, (hk _ _ hr).2⟩
  rw [List.reverse_cons, List.getElem?_append_left (List.getElem?_eq_some_iff.mp h).1, h]

/-- Concatenation on the stack, as the host has it, and in registers, as an instruction. -/
structure Host.JoinsAlike (host : Host) : Prop where
  onStack : ∀ (re : Reentry) (n : Nat), concat re (n + 1) = Placement.stack.join re n
  inRegisters : ∀ (re : Reentry) {m m₁ : Machine} {i : Instruction},
    fetch m = .done i m₁ → i.opcode? = some .concat →
    execute re m = (do
      (Placement.registers i.b).join re (i.c - i.b)
      setRegister i.a (← register i.b)
      return none : Exec _) m₁
  stacked : ∀ {fuel base : Nat} {lefts : List Value} {right : Value} {m : Machine},
    m.Row base lefts right → m.frame.top = base + lefts.length + 1 →
    Joins lefts right
      (Placement.stack.joints (host.reentry fuel) lefts.length m)
      (concatOnTop (host.reentry fuel) (lefts.length + 1) m).result?
  replaced : ∀ {fuel base : Nat} {lefts : List Value} {right : Value} {m m' : Machine},
    m.Row base lefts right → m.frame.top = base + lefts.length + 1 →
    concat (host.reentry fuel) (lefts.length + 1) m = .done () m' →
    ∃ v, m'.Row base [] v ∧ m'.frame.top = base + 1
  executed : ∀ {fuel : Nat} {lefts : List Value} {right : Value} {m m₁ : Machine} {i : Instruction},
    m.Row i.b lefts right → fetch m = .done i m₁ → i.opcode? = some .concat →
    i.c = i.b + lefts.length →
    Joins lefts right
      ((Placement.registers i.b).joints (host.reentry fuel) lefts.length m₁)
      (executeInto (host.reentry fuel) i.a m).result?
  /-- If the handlers that both ask are the same and answer the same, then both join the same pairs, and
  come to the same value or to the same error. -/
  agree : ∀ {fuel fuel' base : Nat} {lefts : List Value} {right : Value} {m m' m₁ : Machine}
      {i : Instruction},
    m.Row base lefts right → m.frame.top = base + lefts.length + 1 →
    m'.Row i.b lefts right → fetch m' = .done i m₁ → i.opcode? = some .concat →
    i.c = i.b + lefts.length →
    let js := Placement.stack.joints (host.reentry fuel) lefts.length m
    let js' := (Placement.registers i.b).joints (host.reentry fuel') lefts.length m₁
    AnswerAlike js js' →
    js'.map Joint.operands = js.map Joint.operands ∧
      (executeInto (host.reentry fuel') i.a m').result? =
        (concatOnTop (host.reentry fuel) (lefts.length + 1) m).result?
  /-- In registers the handlers may yield. When the instruction is completed it has joined the pairs of the
  values, whatever they have answered, and with the same answers they come to the same. -/
  yielding : host.Honest → ∀ {fuel stop : Nat} {lefts : List Value} {right : Value} {m m₁ m' : Machine}
      {i : Instruction} {p : Point},
    host.Arrives m → m.Row i.b lefts right → fetch m = .done i m₁ → i.opcode? = some .concat →
    i.c = i.b + lefts.length → Point.Moves (host.reentry fuel) stop (.running m) p →
    host.Completes m.frameCount m' fuel stop p →
    ∃ js m₂, Weaves host.Answers i.b lefts.length m₁ js m₂ ∧
      m' = m₂.modifyTop m₂.running (·.setSlot i.a (m₂.frame.slot i.b)) ∧
      Joins lefts right js (some (.ok (m'.frame.slot i.a))) ∧
      ∀ {fuel' base : Nat} {m₀ : Machine}, m₀.Row base lefts right →
        m₀.frame.top = base + lefts.length + 1 →
        let js₀ := Placement.stack.joints (host.reentry fuel') lefts.length m₀
        AnswerAlike js₀ js →
        js.map Joint.operands = js₀.map Joint.operands ∧
          (concatOnTop (host.reentry fuel') (lefts.length + 1) m₀).result? =
            some (.ok (m'.frame.slot i.a))
  found : ∀ {m m' : Machine}, m'.tables = m.tables → m'.metatables = m.metatables → ∀ a b,
    m'.concatFinding a b = m.concatFinding a b
  textsOnStack : ∀ {fuel base : Nat} {lefts : List Value} {right : Value} {m : Machine}
      {text : Value → Bytes},
    m.Row base lefts right → m.frame.top = base + lefts.length + 1 →
    (∀ v ∈ right :: lefts, v.toBytes? = some (text v)) →
    (concatOnTop (host.reentry fuel) (lefts.length + 1) m).result? =
        some (.ok (if lefts = [] then right else .string ((right :: lefts).reverse.flatMap text))) ∧
      ∀ j ∈ Placement.stack.joints (host.reentry fuel) lefts.length m,
        ∃ s, j.finding = .value (.string s)
  textsInRegisters : ∀ {fuel : Nat} {lefts : List Value} {right : Value} {m m₁ : Machine}
      {i : Instruction} {text : Value → Bytes},
    m.Row i.b lefts right → fetch m = .done i m₁ → i.opcode? = some .concat →
    i.c = i.b + lefts.length → (∀ v ∈ right :: lefts, v.toBytes? = some (text v)) →
    (executeInto (host.reentry fuel) i.a m).result? =
        some (.ok (if lefts = [] then right else .string ((right :: lefts).reverse.flatMap text))) ∧
      ∀ j ∈ (Placement.registers i.b).joints (host.reentry fuel) lefts.length m₁,
        ∃ s, j.finding = .value (.string s)
  free : ∀ {m : Machine}, m.Captures → m.BytecodeCaptures → m.Active → ¬m.RunsBytecode m.frame →
    ∀ s, ¬m.Captured s

theorem Host.joinsAlike (host : Host) : host.JoinsAlike := by
  have hre (fuel : Nat) (t : ThreadId) : (host.reentry fuel).Shelters False t :=
    host.shelters False.elim t fuel
  constructor
  case onStack => exact concat_eq
  case inRegisters => exact fun re _ _ _ hf ho => execute_concat re hf ho
  case stacked => exact fun hm ht => concatOnTop_joins (hre _) hm ht
  case replaced =>
    intro fuel base lefts right m m' hm ht hx
    obtain ⟨r, -, hr⟩ := (Placement.invariant_stack (hre fuel) base).joins ⟨hm, ht⟩
    rw [← concat_eq, hx] at hr
    obtain ⟨v, -, hm', ht'⟩ := hr
    exact ⟨v, hm', ht'⟩
  case executed => exact fun hm hf ho hc => executeInto_joins (hre _) hm hf ho hc
  case agree =>
    intro fuel fuel' base lefts right m m' m₁ i hm ht hm' hf ho hc js js' ha
    exact (concatOnTop_joins (hre _) hm ht).agree (executeInto_joins (hre _) hm' hf ho hc) ha
  case yielding =>
    intro hh fuel stop lefts right m m₁ m' i p harr hm hf ho hc hp hd
    obtain ⟨js, m₂, hw, he, hj⟩ := hd.weaves hh harr hm hf ho hc hp
    refine ⟨js, m₂, hw, he, hj, ?_⟩
    intro fuel' base m₀ hm₀ ht js₀ ha
    obtain ⟨hops, hres⟩ := (concatOnTop_joins (hre _) hm₀ ht).agree hj ha
    exact ⟨hops, hres.symm⟩
  case found => exact concatFinding_congr
  case textsOnStack => exact fun hm ht htext => (concatOnTop_joins (hre _) hm ht).texts htext
  case textsInRegisters =>
    exact fun hm hf ho hc htext => (executeInto_joins (hre _) hm hf ho hc).texts htext
  case free =>
    intro m hc hb hm hn s
    have hp := hm.positive
    obtain ⟨n, hn'⟩ : ∃ n, m.frameCount = n + 1 := ⟨m.frameCount - 1, by omega⟩
    unfold Captured
    rw [hn']
    exact not_aliased hc hb (getElem?_top hn') hn

def Prototype.joiner (n : Nat) : Prototype :=
  { registers := n, parameters := n, code := #[.ofABC .concat 0 0 (UInt32.ofNat (n - 1))] }

/-- Assigns the left operand to a captured variable, and returns the right one. -/
def Function.intruder : Function where
  body := .bytecode { registers := 2, parameters := 2,
                      code := #[.ofABC .setUpval 0 0 0, .ofABC .return 1 2 0] }
  upvalues := #[⟨0⟩]

namespace Machine

/-- A coroutine, where booleans have a handler for concatenation. -/
def handling (handler : Function) (n : Nat) : Machine :=
  { Machine.new {} with
    tables := #[{}, {}, { entries := [(.string Event.concat.key, .function ⟨0⟩)] }]
    metatables := [(.boolean, ⟨2⟩)]
    functions := #[handler, { body := .bytecode (.joiner n) }, { body := .native (.script 0) }]
    threads := #[{ isMain := true, parked := false, phase := .normal },
      { parked := false, phase := .running, frames := #[{}] }]
    running := ⟨1⟩ }

def joining (handler : Function) (vs : List Value) : Machine :=
  (handling handler vs.length).enterFrame ⟨1⟩ (bytecodeFrame ⟨1⟩ (.joiner vs.length) vs (-1) .host)

def intruded (vs : List Value) : Machine :=
  { (joining .intruder vs).modifyTop ⟨1⟩ fun f => { f with captured := [(0, ⟨0⟩)] } with
    upvalues := #[.opened ⟨⟨1⟩, 1, 0⟩] }

def called (m : Machine) (vs : List Value) : Machine :=
  m.enterFrame m.running (nativeFrame ⟨2⟩ vs 0 (.call 0 1))

/-- A handler sees whether the host waits for it, and it can change captured registers. A single 5 stays a
number. -/
theorem joining_differs :
    let re := ({} : Host).reentry 3
    let asking := joining { body := .native (.builtin .isyieldable) }
    (executeInto re 0 (asking [.bool true, .bool false])).result? = some (.ok (.bool true)) ∧
    (concatOnTop re 2 ((asking [.bool true, .bool false]).called [.bool true, .bool false])).result? =
      some (.ok (.bool false)) ∧
    (executeInto re 0 (intruded [.ofString "x", .bool true, .ofString "y"])).result? =
      some (.ok (.ofString "y")) ∧
    (concatOnTop re 3 ((intruded [.ofString "x", .bool true, .ofString "y"]).called
      [.ofString "x", .bool true, .ofString "y"])).result? = some (.ok (.ofString "xy")) ∧
    (executeInto re 0 (asking [.int 5])).result? = some (.ok (.int 5)) ∧
    (concatOnTop re 1 ((asking [.int 5]).called [.int 5])).result? = some (.ok (.int 5)) ∧
    Value.int 5 ≠ .ofString "5" := by
  decide +kernel

variable {handler : Function} {vs lefts : List Value} {right : Value}

theorem row_joining (hv : (joining handler vs).frame.values = (right :: lefts).reverse) :
    (joining handler vs).Row 0 lefts right :=
  .ofValues ⟨Nat.one_lt_two, Nat.zero_lt_two, rfl, nofun⟩
    (by rw [List.drop_zero, hv, List.take_of_length_le (by simp)])
    fun _ _ _ ⟨_, hu⟩ => Option.some_ne_none _ (hu.symm.trans Array.getElem?_empty)

theorem row_called {host : Host} (hu : host.JoinsAlike)
    (hv : ((joining handler vs).called vs).frame.values = (right :: lefts).reverse) :
    ((joining handler vs).called vs).Row 0 lefts right := by
  have hall (t : ThreadId) :
      (((joining handler vs).called vs).threadAt t).frames.toList.all (·.captured.isEmpty) := by
    match t with
    | ⟨0⟩ | ⟨1⟩ | ⟨_ + 2⟩ => rfl
  have hb : ((joining handler vs).called vs).BytecodeCaptures := fun t i f hf hc =>
    absurd (List.isEmpty_iff.mp (List.all_eq_true.mp (hall t) f
      (Array.mem_toList_iff.mpr (Array.mem_of_getElem? hf)))) hc
  have hm : ((joining handler vs).called vs).Active :=
    ⟨Nat.one_lt_two, Nat.zero_lt_succ 2, rfl, nofun⟩
  have hn : ¬((joining handler vs).called vs).RunsBytecode ((joining handler vs).called vs).frame := by
    rintro ⟨id, p, us, hf, hp⟩
    obtain rfl : ⟨2⟩ = id := Option.some.inj hf
    cases hp
  exact .ofValues hm (by rw [List.drop_zero, hv, List.take_of_length_le (by simp)])
    fun s _ _ => hu.free (.of_empty rfl hall) hb hm hn s

def mixed : Machine := joining { body := .native (.builtin .type) } [.ofString "a ", .bool true, .int 5]

def mixedCalled : Machine := mixed.called [.ofString "a ", .bool true, .int 5]

def plain : Machine := joining { body := .native (.builtin .type) } [.ofString "n = ", .int 5]

def plainCalled : Machine := plain.called [.ofString "n = ", .int 5]

def patient : Machine := joining { body := .native (.script 0) } [.bool true, .bool false]

def patientYield : Machine := (execute (Host.patient.reentry 2) patient).machine

def patientPaused : Machine := (patientYield.surrender none (.error .yield) patientYield).machine

def patientAgain : Machine :=
  (patientPaused.modifyTop patientPaused.running (·.pushAll [.int 8])).continued none 1
    { site := .metamethod, wanted := 1, base := 2 }

def patientDone : Machine := (accept (Host.patient.reentry 2) .metamethod patientAgain).machine

theorem arrives_patient : Host.patient.Arrives patient :=
  .entered (m := handling { body := .native (.script 0) } 2) _ _ _ _ _
    ⟨by decide, rfl, by decide, by decide⟩ rfl

theorem moves_patient :
    Point.Moves (Host.patient.reentry 2) 1 (.running patient) (.failing .yield patientYield) := by
  have hx : execute (Host.patient.reentry 2) patient = .raised .yield patientYield :=
    Outcome.eq_yield (by decide +kernel)
  exact congrArg Outcome.point? hx

theorem completes_patient :
    Host.patient.Completes patient.frameCount patientDone 2 1 (.failing .yield patientYield) := by
  have hs : patientYield.Surfaces patientPaused :=
    ⟨patientYield, none, patientYield, 2, .refl, rfl, Outcome.eq_done (by decide +kernel)⟩
  have hp : patientPaused.Dormant ⟨.metamethod, 1, 2⟩ := by constructor <;> decide +kernel
  obtain ⟨-, -, -, hc⟩ := hp.resumable [.int 8]
  have hd : Host.patient.Descends patient.frameCount .metamethod patientAgain 2 1
      (.failing .yield patientYield) 2 1 := .ofYield hs hc (by decide +kernel)
  have hx : accept (Host.patient.reentry 2) .metamethod patientAgain = .done none patientDone :=
    Outcome.eq_done (by decide +kernel)
  exact .waited rfl hd (Point.moves_delivering (by decide +kernel) (by decide)
    (congrArg Outcome.point? hx)) (.done (by decide +kernel))

end Machine

/-- The handler is asked for the pair on the right, and what it returns is joined with the value on the
left. Another one yields, and the concatenation goes on with the 8 that it is resumed with. -/
theorem Host.joinsAlike_mixed :
    (Placement.stack.joints (({} : Host).reentry 3) 2 Machine.mixedCalled).map Joint.operands =
      [(.bool true, .int 5), (.ofString "a ", .ofString "boolean")] ∧
    ((Placement.registers 0).joints (({} : Host).reentry 4) 2 (fetch Machine.mixed).machine).map
        Joint.operands =
      [(.bool true, .int 5), (.ofString "a ", .ofString "boolean")] ∧
    (concatOnTop (({} : Host).reentry 3) 3 Machine.mixedCalled).result? =
      some (.ok (.ofString "a boolean")) ∧
    (executeInto (({} : Host).reentry 4) 0 Machine.mixed).result? =
      some (.ok (.ofString "a boolean")) ∧
    (concat (({} : Host).reentry 3) 3 Machine.mixedCalled).machine.frame.top = 1 ∧
    (∀ a b, Machine.mixedCalled.concatFinding a b = Machine.mixed.concatFinding a b) ∧
    (concatOnTop (({} : Host).reentry 3) 2 Machine.plainCalled).result? =
      some (.ok (.ofString "n = 5")) ∧
    (executeInto (({} : Host).reentry 3) 0 Machine.plain).result? = some (.ok (.ofString "n = 5")) ∧
    ∃ js m, Weaves Host.patient.Answers 0 1 (fetch Machine.patient).machine js m ∧
      Joins [.bool true] (.bool false) js (some (.ok (.int 8))) := by
  have hu := ({} : Host).joinsAlike
  have hm : Machine.mixedCalled.Row 0 [.bool true, .ofString "a "] (.int 5) :=
    row_called hu (by decide +kernel)
  have hm' : Machine.mixed.Row 0 [.bool true, .ofString "a "] (.int 5) := row_joining (by decide +kernel)
  have hp : Machine.plainCalled.Row 0 [.ofString "n = "] (.int 5) := row_called hu (by decide +kernel)
  have hp' : Machine.plain.Row 0 [.ofString "n = "] (.int 5) := row_joining (by decide +kernel)
  have hf : fetch Machine.mixed = .done (.ofABC .concat 0 0 2) (fetch Machine.mixed).machine :=
    Outcome.eq_done (by decide +kernel)
  have hf' : fetch Machine.plain = .done (.ofABC .concat 0 0 1) (fetch Machine.plain).machine :=
    Outcome.eq_done (by decide +kernel)
  have ht : Machine.mixedCalled.frame.top = 3 := by decide +kernel
  have hj : (Placement.stack.joints (({} : Host).reentry 3) 2 Machine.mixedCalled).map Joint.operands =
      [(.bool true, .int 5), (.ofString "a ", .ofString "boolean")] := by decide +kernel
  have hr : (concatOnTop (({} : Host).reentry 3) 3 Machine.mixedCalled).result? =
      some (.ok (.ofString "a boolean")) := by decide +kernel
  have hsame : AnswerAlike
      (Placement.stack.joints (({} : Host).reentry 3) 2 Machine.mixedCalled)
      ((Placement.registers 0).joints (({} : Host).reentry 4) 2 (fetch Machine.mixed).machine) :=
    .of_map (by decide +kernel) (by decide +kernel)
  obtain ⟨hops, hres⟩ := hu.agree (i := .ofABC .concat 0 0 2) hm ht hm' hf rfl rfl hsame
  have hconcat : concat (({} : Host).reentry 3) 3 Machine.mixedCalled =
      .done () (concat (({} : Host).reentry 3) 3 Machine.mixedCalled).machine :=
    Outcome.eq_done (by decide +kernel)
  obtain ⟨-, -, htop⟩ := hu.replaced hm ht hconcat
  -- texts alone
  have htext : ∀ v ∈ [Value.int 5, .ofString "n = "], v.toBytes? = some (v.toBytes?.getD []) := by
    decide +kernel
  have hs : (concatOnTop (({} : Host).reentry 3) 2 Machine.plainCalled).result? = _ :=
    (hu.textsOnStack hp (by decide +kernel) htext).1
  have hs' : (executeInto (({} : Host).reentry 3) 0 Machine.plain).result? = _ :=
    (hu.textsInRegisters (i := .ofABC .concat 0 0 1) hp' hf' rfl rfl htext).1
  -- a yield
  have hfy : fetch Machine.patient = .done (.ofABC .concat 0 0 1) (fetch Machine.patient).machine :=
    Outcome.eq_done (by decide +kernel)
  have hy : Machine.patient.Row 0 [.bool true] (.bool false) := row_joining (by decide +kernel)
  obtain ⟨js, m, hw, -, hjoins, -⟩ := Host.patient.joinsAlike.yielding (i := .ofABC .concat 0 0 1)
    List.not_mem_nil arrives_patient hy hfy rfl rfl moves_patient completes_patient
  have h8 : patientDone.frame.slot 0 = .int 8 := by decide +kernel
  exact ⟨hj, hops.trans hj, hr, hres.trans hr, htop, hu.found rfl rfl, hs.trans (by decide +kernel),
    hs'.trans (by decide +kernel), js, m, hw, h8 ▸ hjoins⟩

end LuaMachine
