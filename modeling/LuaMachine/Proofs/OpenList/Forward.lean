import LuaMachine.Proofs.Results

namespace LuaMachine

open Machine Exec Relation

namespace Instruction

/-- The operand of a call that counts its results; those of a tail call are open. -/
def resultCount? (i : Instruction) : Option Nat :=
  match i.opcode? with
  | some .call => some i.c
  | some .tailCall => some 0
  | _ => none

theorem a_lt (i : Instruction) : i.a < 256 := by
  have h : Field.a.limit.toNat = 255 := by decide
  have hl : i.a ≤ Field.a.limit.toNat := by
    rw [a, Field.get, UInt32.toNat_and]
    exact Nat.and_le_right
  omega

end Instruction

/-- A bytecode frame with nothing above its registers is on top of the running thread. -/
structure Machine.Rests (honest : Prop) (h : Nat) (m : Machine) (regs : List Value) : Prop where
  ready : (m.threadAt m.running).Ready honest m.frameCount h False
  holds : m.Holds regs.length regs

/-- How open lists come about, and what becomes of them. In `m₀` the frame has given up the function
and the arguments of a call. -/
structure Reentry.ForwardsLists (honest : Prop) (re : Reentry) : Prop where
  vararg : ∀ {m m₁ : Machine} {i : Instruction} {regs : List Value},
    m.Holds regs.length regs → fetch m = .done i m₁ → i.opcode? = some .vararg → i.b = 0 →
    ∃ m', execute re m = .done none m' ∧ m₁.Restacked m' ∧ m'.Offers i.a regs m.frame.varargs
  call : ∀ {m m₁ : Machine} {i : Instruction} {regs args : List Value} {callee : Value} {c : Nat},
    m.Holds regs.length regs → fetch m = .done i m₁ → i.resultCount? = some c →
    i.b = args.length + 1 → i.a + args.length < regs.length →
    registersBetween regs i.a (i.a + args.length + 1) = callee :: args →
    ∃ m₀, execute re m = (do makeCall re i.a c callee args; return none : Exec _) m₀ ∧
      m₁.Restacked m₀ ∧ m₀.Holds regs.length regs
  «return» : ∀ {m m₁ : Machine} {i : Instruction} {k : Nat} {regs : List Value},
    m.Holds regs.length regs → fetch m = .done i m₁ → i.opcode? = some .return → i.b = k + 1 →
    i.a + k ≤ regs.length → ∃ us, Upvalue.Closes m₁.upvalues us ∧
      execute re m = .done (some m.frame.site) (m₁.left us (registersBetween regs i.a (i.a + k)))
  started : ∀ {h : Nat} {m₀ : Machine} {regs : List Value}, m₀.Rests honest h regs →
    ∀ callee args wanted site, (callValue re callee args wanted site m₀).Started honest m₀.running
      m₀.frameCount h site wanted m₀
  native : ∀ {h : Nat} {m₀ m : Machine} {regs : List Value} {f : FunctionId} {body : Native}
      {args : List Value} {wanted : Int} {site : CallSite} {results : Nat}, m₀.Rests honest h regs →
    re.invoke body (m₀.enterFrame m₀.running (nativeFrame f args wanted site)) = .done results m →
    m.frameCount = m₀.frameCount + 1 →
    ∃ m', callNative re f body args wanted site m₀ = .done false m' ∧ m'.running = m₀.running ∧
      Returned honest m₀.running m₀.frameCount h (m.frame.topValues results) wanted m₀ m'
  ended : ∀ {h : Nat} {o : Origin} {m₀ m : Machine} {regs vs : List Value} {us : Array Upvalue},
    m₀.Rests honest h regs →
    Shelter honest m₀.running m₀.frameCount h o m₀ m₀.running false m → m.running = m₀.running →
    m.frameCount = m₀.frameCount + 1 → Upvalue.Closes m.upvalues us →
    Returned honest m₀.running m₀.frameCount h vs o.wanted m₀ (m.left us vs)
  /-- The loop comes back to the frame at the call site only, and with results. -/
  walked : ∀ {h stop : Nat} {o : Origin} {m₀ m : Machine} {regs : List Value} {p : Point}
      {site : CallSite}, m₀.Rests honest h regs →
    p.Above honest m₀.running m₀.frameCount h o m₀ →
    ReflTransGen (Point.Climbs re m₀.frameCount stop) p (.delivering site m) →
    m.frameCount = m₀.frameCount → site = o.site ∧ m.running = m₀.running ∧
      ∃ vs, Returned honest m₀.running m₀.frameCount h vs o.wanted m₀ m
  returned : ∀ {h : Nat} {m₀ m : Machine} {regs vs : List Value} {wanted : Int},
    m₀.Rests honest h regs → m.running = m₀.running →
    Returned honest m₀.running m₀.frameCount h vs wanted m₀ m → m₀.Arrived regs (adjust vs wanted) m
  suspended : ∀ {h : Nat} {m₀ m : Machine} {regs : List Value} {site : CallSite} {wanted : Int},
    m₀.Rests honest h regs → m.running = m₀.running → honest →
    Abandoned honest m₀.running m₀.frameCount h site wanted m₀ .yield m →
    m.thread.pending = some { site, wanted, base := regs.length } ∧ m₀.Arrived regs [] m
  resumed : ∀ {m : Machine} {regs rest args : List Value} {site : CallSite} {wanted : Int},
    m.thread.pending = some { site, wanted, base := regs.length } →
    m.Holds regs.length (regs ++ rest ++ args) →
    ∃ m', continueCall re args.length m = re.dispatch 1 (some site) m' ∧
      m'.Holds regs.length (regs ++ adjust args wanted)
  stored : ∀ {m : Machine} {a : Nat} {regs vs : List Value}, m.Holds regs.length (regs ++ vs) →
    ∃ m', accept re (.call a 0) m = .done none m' ∧ m.Restacked m' ∧ m'.Offers a regs vs
  settled : ∀ {m : Machine} {a : Nat} {regs vs : List Value},
    m.Holds regs.length (regs ++ vs) → a + vs.length ≤ regs.length →
    ∃ m', accept re (.call a (vs.length + 1)) m = .done none m' ∧ m.Restacked m' ∧
      m'.Holds regs.length (overwrite regs a vs)
  callOpen : ∀ {m m₁ : Machine} {p i : Instruction} {c : Nat} {regs vs args : List Value}
      {callee : Value}, m.Offers p.a regs vs → fetch m = .done i m₁ → i.resultCount? = some c →
    i.b = 0 → i.a < p.a → p.a ≤ regs.length →
    registersBetween regs i.a p.a ++ vs = callee :: args →
    ∃ m₀, execute re m = (do makeCall re i.a c callee args; return none : Exec _) m₀ ∧
      m₁.Restacked m₀ ∧ m₀.Holds regs.length regs
  setList : ∀ {m m₁ m₂ : Machine} {p i : Instruction} {block : Nat} {t : TableId}
      {regs vs : List Value}, m.Offers p.a regs vs → fetch m = .done i m₁ →
    i.opcode? = some .setList → i.b = 0 → i.a < p.a → p.a ≤ regs.length →
    regs[i.a]? = some (.table t) → blockOf i m₁ = .done block m₂ →
    ∃ m', execute re m = .done none m' ∧ m'.Holds regs.length regs ∧
      (m₂.withItems t (block * blockSize)
        (registersBetween regs (i.a + 1) p.a ++ vs)).Restacked m'
  returnOpen : ∀ {m m₁ : Machine} {p i : Instruction} {regs vs : List Value},
    m.Offers p.a regs vs → fetch m = .done i m₁ → i.opcode? = some .return → i.b = 0 → i.a ≤ p.a →
    p.a ≤ regs.length → ∃ us, Upvalue.Closes m₁.upvalues us ∧
      execute re m = .done (some m.frame.site) (m₁.left us (registersBetween regs i.a p.a ++ vs))

namespace Exec

variable {honest : Prop} {re : Reentry} {m m₁ m₀ : Machine} {i : Instruction} {n a b c h : Nat}
  {vs regs args : List Value} {callee : Value}

theorem execute_fetched (re : Reentry) (hf : fetch m = .done i m₁) :
    execute re m = carryOut re i m₁ := by
  rw [execute, run_bind, hf, Outcome.andThen_done]

theorem execute_plain {op : Opcode} {x : Exec Unit} (hf : fetch m = .done i m₁)
    (ho : i.opcode? = some op) (hr : op ≠ .return) (hx : plainInstruction re op i = x) :
    execute re m = (do x; return none : Exec _) m₁ := by
  rw [execute_fetched re hf, carryOut_plain re ho hr, hx]

theorem execute_call (hf : fetch m = .done i m₁) (hc : i.resultCount? = some c) :
    execute re m = (do callRegister re i.a i.b c; return none : Exec _) m₁ := by
  unfold Instruction.resultCount? at hc
  split at hc
  · next ho =>
    cases hc
    exact execute_plain hf ho (by decide) rfl
  · next ho =>
    cases hc
    exact execute_plain hf ho (by decide) rfl
  · cases hc

theorem execute_vararg (hm : m.Holds regs.length regs) (hf : fetch m = .done i m₁)
    (ho : i.opcode? = some .vararg) (hb : i.b = 0) :
    ∃ m', execute re m = .done none m' ∧ m₁.Restacked m' ∧ m'.Offers i.a regs m.frame.varargs := by
  obtain ⟨m', he, hr, hm'⟩ := copyVarargs_open (fetch_holds hf hm) i.a
  have hv : m₁.frame.varargs = m.frame.varargs := by rw [frame_fetched hf hm.inner]
  refine ⟨m', ?_, hr, hv ▸ hm'⟩
  rw [execute_plain hf ho (by decide) rfl, plainInstruction, hb, run_bind, he, Outcome.andThen_done,
    run_pure]

theorem execute_fixedCall (hm : m.Holds regs.length regs) (hf : fetch m = .done i m₁)
    (hc : i.resultCount? = some c) (hb : i.b = args.length + 1) (ha : i.a + args.length < regs.length)
    (hr : registersBetween regs i.a (i.a + args.length + 1) = callee :: args) :
    ∃ m₀, execute re m = (do makeCall re i.a c callee args; return none : Exec _) m₀ ∧
      m₁.Restacked m₀ ∧ m₀.Holds regs.length regs := by
  obtain ⟨m₀, he, hr₀, hm₀⟩ := callRegister_fixed re c (fetch_holds hf hm) ha hr
  exact ⟨m₀, by rw [execute_call hf hc, hb, run_bind, he, run_bind], hr₀, hm₀⟩

theorem execute_openCall (hm : m.Offers b regs vs) (hf : fetch m = .done i m₁)
    (hc : i.resultCount? = some c) (h0 : i.b = 0) (hab : i.a < b) (hb : b ≤ regs.length)
    (hs : b < 256) (ha : registersBetween regs i.a b ++ vs = callee :: args) :
    ∃ m₀, execute re m = (do makeCall re i.a c callee args; return none : Exec _) m₀ ∧
      m₁.Restacked m₀ ∧ m₀.Holds regs.length regs := by
  obtain ⟨m₀, he, hr₀, hm₀⟩ := callRegister_open re c (fetch_holds hf hm) hab hb hs ha
  exact ⟨m₀, by rw [execute_call hf hc, h0, run_bind, he, run_bind], hr₀, hm₀⟩

theorem execute_setList {m₂ : Machine} {block : Nat} {t : TableId} (hm : m.Offers b regs vs)
    (hf : fetch m = .done i m₁) (ho : i.opcode? = some .setList) (h0 : i.b = 0) (hab : i.a < b)
    (hb : b ≤ regs.length) (hs : b < 256) (ht : regs[i.a]? = some (.table t))
    (hblock : blockOf i m₁ = .done block m₂) :
    ∃ m', execute re m = .done none m' ∧ m'.Holds regs.length regs ∧
      (m₂.withItems t (block * blockSize)
        (registersBetween regs (i.a + 1) b ++ vs)).Restacked m' := by
  obtain ⟨m', he, hm', hr⟩ :=
    setList_open (fetch_holds hf hm) h0 (Nat.lt_of_lt_of_le hab hb) hb hs ht hblock
  refine ⟨m', ?_, hm', hr⟩
  rw [execute_plain hf ho (by decide) rfl, plainInstruction, run_bind, he, Outcome.andThen_done,
    run_pure]

theorem execute_fixedReturn {k : Nat} (hm : m.Holds n regs) (hf : fetch m = .done i m₁)
    (ho : i.opcode? = some .return) (hk : i.b = k + 1) (ha : i.a + k ≤ regs.length) :
    ∃ us, Upvalue.Closes m₁.upvalues us ∧ execute re m = .done (some m.frame.site)
      (m₁.left us (registersBetween regs i.a (i.a + k))) := by
  obtain ⟨us, hu, he⟩ := returnFrom_fixed (fetch_holds hf hm) ha
  have hsite : m₁.frame.site = m.frame.site := by rw [frame_fetched hf hm.inner]
  refine ⟨us, hu, ?_⟩
  rw [execute_fetched re hf, carryOut_return re ho, hk, ← bind_pure_comp, run_bind, he, hsite]
  rfl

theorem execute_openReturn (hm : m.Offers b regs vs) (hf : fetch m = .done i m₁)
    (ho : i.opcode? = some .return) (h0 : i.b = 0) (hab : i.a ≤ b) (hb : b ≤ regs.length)
    (hs : b < 256) : ∃ us, Upvalue.Closes m₁.upvalues us ∧
      execute re m = .done (some m.frame.site) (m₁.left us (registersBetween regs i.a b ++ vs)) := by
  obtain ⟨us, hu, he⟩ := returnFrom_open (fetch_holds hf hm) hab hb hs
  have hsite : m₁.frame.site = m.frame.site := by rw [frame_fetched hf hm.inner]
  refine ⟨us, hu, ?_⟩
  rw [execute_fetched re hf, carryOut_return re ho, h0, ← bind_pure_comp, run_bind, he, hsite]
  rfl

theorem accept_open (re : Reentry) (a : Nat) (hm : m.Holds regs.length (regs ++ vs)) :
    ∃ m', accept re (.call a 0) m = .done none m' ∧ m.Restacked m' ∧ m'.Offers a regs vs := by
  obtain ⟨m', he, hr, hm'⟩ := Rearranges.storeResults_open m hm
  exact ⟨m', by rw [accept_call, run_bind, he]; rfl, hr, hm'⟩

theorem accept_fixed (re : Reentry) (hm : m.Holds n (regs ++ vs))
    (ha : a + vs.length ≤ regs.length) :
    ∃ m', accept re (.call a (vs.length + 1)) m = .done none m' ∧ m.Restacked m' ∧
      m'.Holds n (overwrite regs a vs) := by
  obtain ⟨m', he, hr, hm'⟩ := Rearranges.storeResults_fixed ha m hm
  exact ⟨m', by rw [accept_call, run_bind, he]; rfl, hr, hm'⟩

theorem callNative_returned (hre : re.Shelters honest m₀.running) (hm : m₀.Rests honest h regs)
    {f : FunctionId} {body : Native} {args : List Value} {wanted : Int} {site : CallSite}
    {results : Nat} (hi : re.invoke body
      (m₀.enterFrame m₀.running (nativeFrame f args wanted site)) = .done results m)
    (hs : m.frameCount = m₀.frameCount + 1) :
    ∃ m', callNative re f body args wanted site m₀ = .done false m' ∧ m'.running = m₀.running ∧
      Returned honest m₀.running m₀.frameCount h (m.frame.topValues results) wanted m₀ m' := by
  have hk := (Shelter.keeps_of_aloft fun c => hre.invoke body m₀.frameCount c _ m₀).endsIn
    (m := m₀.enterFrame m₀.running (nativeFrame f args wanted site)) rfl
    (hm.ready.exposed.enterFrame (nativeFrame f args wanted site))
  rw [hi] at hk
  have ht : m.running = m₀.running := hk.1
  obtain ⟨m', (he : endNative m₀.frameCount results wanted m = _), ht', hx⟩ :=
    returned_endNative results hm.ready.many ht hk.2
  have hf : ((m.threadAt m₀.running).frames[m₀.frameCount]?).getD default = m.frame := by
    rw [← ht, getElem?_top hs]
    rfl
  rw [hf] at hx
  refine ⟨m', ?_, ht', hx⟩
  rw [callNative_eq re f body args wanted site m₀ (m₀.index_lt hm.ready.one_lt_size), hi]
  dsimp only
  rw [if_neg (by simp [hs]), he]

theorem abandoned_arrived {site : CallSite} {wanted : Int} (hm : m₀.Rests honest h regs)
    (ht : m.running = m₀.running) (hh : honest)
    (ha : Abandoned honest m₀.running m₀.frameCount h site wanted m₀ .yield m) :
    m.thread.pending = some { site, wanted, base := regs.length } ∧ m₀.Arrived regs [] m := by
  obtain ⟨regs', hp, hr⟩ := ha.exposed.holds hm.holds rfl rfl ht
  have hb : (m.frameAt m₀.running).top = regs.length := by
    rw [← ht]
    exact hr.top.trans hp.length
  have hpend := ha.pending hh rfl
  rw [hb] at hpend
  refine ⟨by rw [Machine.thread, ht, hpend], ht, ha.exposed.frameCount ht, regs', hp, ?_⟩
  rwa [List.append_nil]

end Exec

/-- Whatever a host brings along, lists get through. -/
theorem Host.forwardsLists (host : Host) (fuel : Nat) :
    (host.reentry fuel).ForwardsLists host.Honest where
  vararg := execute_vararg
  call := execute_fixedCall
  «return» := execute_fixedReturn
  started hm callee args wanted site :=
    started_callValue (host.shelters id _ fuel) callee args wanted site hm.ready rfl
  native hm hi hs := callNative_returned (host.shelters id _ fuel) hm hi hs
  ended hm hs ht hc hu := hs.returned_left hm.ready.many ht hc hu
  walked hm hp hw hs := hp.returned (host.shelters id _ fuel) hm.ready.many hw hs
  returned hm ht hr := hr.arrived hm.holds rfl rfl ht
  suspended := abandoned_arrived
  resumed hp hm := by
    obtain ⟨m', he, -, hm'⟩ := continueCall_holds _ hp rfl hm
    exact ⟨m', he, hm'⟩
  stored := accept_open _ _
  settled := accept_fixed _
  callOpen {_ _ p _ _ _ _ _ _} hm hf hc h0 hab hb ha :=
    execute_openCall hm hf hc h0 hab hb p.a_lt ha
  setList {_ _ _ p _ _ _ _ _} hm hf ho h0 hab hb ht hblock :=
    execute_setList hm hf ho h0 hab hb p.a_lt ht hblock
  returnOpen {_ _ p _ _ _} hm hf ho h0 hab hb := execute_openReturn hm hf ho h0 hab hb p.a_lt

/-- A function with three registers returns the first one and its extra arguments. -/
def Machine.gathering : Machine :=
  { Machine.new {} with
    functions := #[{ body := .bytecode { variadic := true, registers := 3, code := #[
      .ofABC .vararg 1 0 0, .ofABC .return 0 0 0] } }]
    threads := #[{ isMain := true, parked := false, phase := .running, frames := #[{}, {
      window := #[.int 7, .nil, .nil], top := 3, function := some ⟨0⟩, wanted := -1,
      varargs := [.int 8, .int 9] }] }] }

theorem Host.forwardsLists_gathering : ∃ m₁ m₂ us,
    execute (({} : Host).reentry 1) Machine.gathering = .done none m₁ ∧
    fetch m₁ = .done (.ofABC .return 0 0 0) m₂ ∧
    execute (({} : Host).reentry 1) m₁ =
      .done (some .host) (m₂.left us [.int 7, .int 8, .int 9]) := by
  have hf := ({} : Host).forwardsLists 1
  have hm : Machine.gathering.Holds [Value.int 7, .nil, .nil].length [.int 7, .nil, .nil] :=
    ⟨by decide, by decide, rfl, rfl⟩
  let started := Machine.gathering.modifyTop mainThread fun f => { f with pc := 1 }
  have hi : 1 < started.frameCount := by decide
  have hs : fetch Machine.gathering = .done (.ofABC .vararg 1 0 0) started := rfl
  obtain ⟨m₁, h₁, hr, hm₁⟩ := hf.vararg hm hs rfl rfl
  have hc := hr.control hi
  have hpc : m₁.frame.pc = 1 := (congrArg Frame.pc hc : m₁.frame.control.pc = _)
  have hsite : m₁.frame.site = .host := (congrArg Frame.site hc : m₁.frame.control.site = _)
  have hp : m₁.prototype.bind (·.code[m₁.frame.pc]?) = some (.ofABC .return 0 0 0) := by
    rw [hr.prototype hi, hpc]
    rfl
  obtain ⟨m₂, h₂⟩ : ∃ m₂, fetch m₁ = .done (.ofABC .return 0 0 0) m₂ :=
    ⟨_, by rw [fetch_eq, hp]⟩
  obtain ⟨us, -, h₃⟩ := hf.returnOpen (p := .ofABC .vararg 1 0 0) hm₁ h₂ rfl rfl (by decide) (by decide)
  rw [hsite] at h₃
  exact ⟨m₁, m₂, us, h₁, h₂, h₃⟩

end LuaMachine
