import LuaMachine.Proofs.Limits.Frames
import LuaMachine.Proofs.OpenList.Protocol

namespace LuaMachine

open Machine Exec Relation

/-- What the limit on the stack size does in the loop of a host, and what it does not. -/
structure Host.ReservesRegisters (host : Host) : Prop where
  /-- A bytecode function is called if there is room for its registers and the spare slots. The stack
  overflows otherwise, before anything has changed. -/
  launched : ∀ {fuel : Nat} {m : Machine} {f : FunctionId} {p : Prototype} (args : List Value)
      (wanted : Int) (site : CallSite), (m.functionAt f).body = .bytecode p →
    m.frameCount ≤ m.limits.callDepth →
    callValue (host.reentry fuel) (.function f) args wanted site m =
      if m.limits.stackSize < p.registers + spareSlots then fault .frameOverflow m
      else .done true (m.enterFrame m.running (bytecodeFrame f p args wanted site))
  limited : ∀ limits n, host.Maintains (Machine.Limited limits n)
  housed : ∀ limits, host.Maintains (Machine.Housed limits)
  fresh : ∀ limits, (Machine.new limits).Housed limits
  begun : ∀ {n : Nat} {m : Machine} {f : FunctionId} {p : Prototype} {us : Array UpvalueId}
      {t : ThreadId} {g : Frame} {args : List Value} {wanted : Int} {site : CallSite},
    m.Limited m.limits n →
    f.index < n → m.functions[f.index]? = some { body := .bytecode p, upvalues := us } →
    g ∈ (m.threadAt t).frames → g.function = some f →
    (bytecodeFrame f p args wanted site).top + spareSlots ≤ m.limits.stackSize
  arguments : ∀ {fuel : Nat} {m : Machine} {f : FunctionId} {body : Native} (args : List Value)
      (wanted : Int) (site : CallSite), 1 < m.frameCount → (m.functionAt f).body = .native body →
    m.frameCount ≤ m.limits.callDepth →
    callValue (host.reentry fuel) (.function f) args wanted site m =
      callNative (host.reentry fuel) f body args wanted site m ∧
    (m.enterFrame m.running (nativeFrame f args wanted site)).frame.top = args.length
  vararg : ∀ {fuel : Nat} {m m₁ : Machine} {i : Instruction} {regs : List Value},
    m.Holds regs.length regs → fetch m = .done i m₁ → i.opcode? = some .vararg → i.b = 0 →
    ∃ m', execute (host.reentry fuel) m = .done none m' ∧ m'.limits = m.limits ∧
      m'.frame.top = regs.length + m.frame.varargs.length + 1
  results : ∀ {fuel a : Nat} {m : Machine} {regs vs : List Value},
    m.Holds regs.length (regs ++ vs) →
    ∃ m', accept (host.reentry fuel) (.call a 0) m = .done none m' ∧ m'.limits = m.limits ∧
      m'.frame.top = regs.length + vs.length + 1
  returned : ∀ {fuel k n : Nat} {m m₁ : Machine} {i : Instruction} {g : Frame} {regs : List Value},
    m.frameCount = k + 2 → 0 < k → m.thread.frames[k]? = some g → m.Holds regs.length regs →
    fetch m = .done i m₁ → i.opcode? = some .return → i.b = n + 1 → i.a + n ≤ regs.length →
    ∃ m', execute (host.reentry fuel) m = .done (some m.frame.site) m' ∧ m'.limits = m.limits ∧
      m'.frame.top = g.top + (adjust (registersBetween regs i.a (i.a + n)) m.frame.wanted).length
  returnedOpen : ∀ {fuel k b : Nat} {m m₁ : Machine} {i : Instruction} {g : Frame}
      {regs vs : List Value},
    m.frameCount = k + 2 → 0 < k → m.thread.frames[k]? = some g → m.Offers b regs vs →
    fetch m = .done i m₁ → i.opcode? = some .return → i.b = 0 → i.a ≤ b → b ≤ regs.length →
    b < 256 →
    ∃ m', execute (host.reentry fuel) m = .done (some m.frame.site) m' ∧ m'.limits = m.limits ∧
      m'.frame.top =
        g.top + (adjust (registersBetween regs i.a b ++ vs) m.frame.wanted).length
  resumed : ∀ {fuel : Nat} {m : Machine} {regs rest args : List Value} {call : PendingCall},
    m.thread.pending = some call → call.base = regs.length →
    m.Holds regs.length (regs ++ rest ++ args) →
    ∃ m', continueCall (host.reentry fuel) args.length m =
        (host.reentry fuel).dispatch 1 (some call.site) m' ∧
      m'.frame.top = regs.length + (adjust args call.wanted).length
  settled : ∀ {fuel a : Nat} {m : Machine} {regs vs : List Value},
    m.Holds regs.length (regs ++ vs) → a + vs.length ≤ regs.length →
    ∃ m', accept (host.reentry fuel) (.call a (vs.length + 1)) m = .done none m' ∧
      m'.frame.top = regs.length

/-- Room for registers is the only thing that the limit on the stack size is about. -/
theorem Host.reservesRegisters (host : Host) : host.ReservesRegisters := by
  constructor
  case launched =>
    intro fuel m f p args wanted site hb hd
    have hc : callTarget chainLimit (.function f) args = pure (f, args) := rfl
    rw [callValue, hc, pure_bind, launch_eq, if_neg (Nat.not_lt.mpr hd), hb]
    rfl
  case limited => exact fun limits n => host.maintains _
  case housed => exact fun limits => host.maintains _
  case fresh => exact .new
  case begun =>
    intro n m f p us t g args wanted site h hn hf hg hfun
    exact h.window t g hg f hfun hn p us hf
  case arguments =>
    intro fuel m f body args wanted site hn hb hd
    have hc : callTarget chainLimit (.function f) args = pure (f, args) := rfl
    refine ⟨?_, congrArg Frame.top (frame_enterFrame hn _)⟩
    rw [callValue, hc, pure_bind, launch_eq, if_neg (Nat.not_lt.mpr hd), hb]
  case vararg =>
    intro fuel m m₁ i regs hm hf ho hb
    obtain ⟨m', he, ⟨_, -, rfl⟩, hm'⟩ := execute_vararg hm hf ho hb
    refine ⟨_, he, by rw [fetch_done hf]; rfl, ?_⟩
    rw [Holds.top hm', List.length_append, List.length_append]
    rfl
  case results =>
    intro fuel a m regs vs hm
    obtain ⟨m', he, ⟨_, -, rfl⟩, hm'⟩ := accept_open (host.reentry fuel) a hm
    refine ⟨_, he, rfl, ?_⟩
    rw [Holds.top hm', List.length_append, List.length_append]
    rfl
  case returned =>
    intro fuel k n m m₁ i g regs hs hk hg hm hf ho hn ha
    obtain ⟨us, -, he⟩ : ∃ us, _ ∧ execute (host.reentry fuel) m = _ :=
      execute_fixedReturn hm hf ho hn ha
    exact ⟨_, he, by rw [fetch_done hf]; rfl, congrArg Frame.top
      (frame_left_fetched hs hk hg hf us _).1⟩
  case returnedOpen =>
    intro fuel k b m m₁ i g regs vs hs hk hg hm hf ho h0 ha hb hl
    obtain ⟨us, -, he⟩ : ∃ us, _ ∧ execute (host.reentry fuel) m = _ :=
      execute_openReturn hm hf ho h0 ha hb hl
    exact ⟨_, he, by rw [fetch_done hf]; rfl, congrArg Frame.top
      (frame_left_fetched hs hk hg hf us _).1⟩
  case resumed =>
    intro fuel m regs rest args call hp hb hm
    obtain ⟨m', he, -, hm'⟩ := continueCall_holds (host.reentry fuel) hp hb hm
    exact ⟨m', he, by rw [hm'.top, List.length_append]⟩
  case settled =>
    intro fuel a m regs vs hm ha
    obtain ⟨m', he, -, hm'⟩ := accept_fixed (host.reentry fuel) hm ha
    exact ⟨m', he, by rw [hm'.top, length_overwrite ha]⟩

/-- The stack of this host has room for two registers beside the spare slots. -/
def Machine.cramped : Machine :=
  { Machine.new { stackSize := 22 } with functions := #[{ body := .bytecode { registers := 3 } }] }

/-- A function with three is not called. -/
theorem Host.reservesRegisters_cramped :
    callValue (({} : Host).reentry 1) (.function ⟨0⟩) [] (-1) .host Machine.cramped =
      fault .frameOverflow Machine.cramped := by
  have hbody : (Machine.cramped.functionAt ⟨0⟩).body = .bytecode { registers := 3 } := rfl
  exact ({} : Host).reservesRegisters.launched [] (-1) .host hbody (by decide)

def Machine.crammed : Machine :=
  { Machine.new { stackSize := 26 } with
    functions := #[
      { body := .bytecode {
          variadic := true
          registers := 3
          code := #[.ofABC .vararg 0 0 0, .ofABC .return 0 0 0] } }]
    threads := #[{ isMain := true, parked := false, phase := .running, frames := #[{
      window := #[.function ⟨0⟩] ++ Array.replicate 24 (.int 7), top := 25 }] }] }

set_option maxRecDepth 4000 in
/-- The stack of the function grows past the limit. -/
theorem Machine.crammed_overfull : ∃ m₁ m₂,
    enter (({} : Host).reentry 1) 24 (-1) .host Machine.crammed = .done true m₁ ∧
    Point.Moves (({} : Host).reentry 1) 1 (.running m₁) (.running m₂) ∧
    m₂.limits.stackSize < m₂.frame.top :=
  ⟨_, _, rfl, rfl, by decide +kernel⟩

end LuaMachine
