import LuaMachine.Proofs.Loop
import LuaMachine.Proofs.Upvalue.Instruction

namespace LuaMachine

open Machine Exec

namespace Host

variable (host : Host) (fuel : Nat) (m : Machine)

instance keeps_invoke (f : Native) :
    Keeps (Condition.Since m) ((host.reentry fuel).invoke f) := (host.keeps_foreign fuel).1 f

instance keeps_loop (stop : Nat) (site : Option CallSite) :
    Keeps (Condition.Since m) ((host.reentry fuel).dispatch stop site) :=
  (host.keeps_foreign fuel).2 stop site

instance safe_since : (host.reentry fuel).Safe (Condition.Since m) :=
  Reentry.safe_framed _ inferInstance inferInstance

instance starts_since : (host.reentry fuel).Starts (Condition.Since m) :=
  Reentry.starts_framed _ inferInstance inferInstance

theorem run_follows (limits : Limits) (library : Option Library) (operations : List Operation) :
    (host.run fuel limits library operations).Follows (Machine.new limits) :=
  (host.ends_run (K := Condition.Since (Machine.new limits)) fuel limits library operations
    ⟨[], .start⟩).follows

end Host

/-- What a computation does is a history, and what histories do to captured variables. -/
structure Host.KeepsVariables (host : Host) : Prop where
  session : ∀ fuel limits library operations,
    (host.run fuel limits library operations).Follows (Machine.new limits)
  operation : ∀ fuel outer op m, (perform (host.reentry fuel) outer op m).Follows m
  native : ∀ fuel f m, (host.invoke fuel f m).Follows m
  loop : ∀ fuel stop site m, (host.dispatch fuel stop site m).Follows m
  step : ∀ fuel stop m, (Exec.step (host.reentry fuel) stop m).Follows m
  delivery : ∀ fuel stop site m, (deliver (host.reentry fuel) stop site m).Follows m
  failure : ∀ fuel stop level e m, (handle (host.reentry fuel) stop level e m).Follows m
  captures : ∀ {limits : Limits} {es : Assignments} {m : Machine},
    (Machine.new limits).History es m → m.Captures
  preserved : ∀ {es : Assignments} {m m' : Machine}, m.History es m' → m.Captures → m'.Captures
  closed : ∀ {es : Assignments} {m m' : Machine} {u : UpvalueId} {w : Value}, m.History es m' →
    m.upvalues[u.index]? = some (.closed w) →
    m'.upvalues[u.index]? = some (.closed (lastAssigned u w es))
  /-- A change that closes an upvalue leaves it with what is in the register. -/
  closing : ∀ {es : Assignments} {m m' : Machine} {u : UpvalueId} {p : Register}, Change es m m' →
    m.upvalues[u.index]? = some (.opened p) → m'.upvalues[u.index]? = some (.opened p) ∨
      es = [] ∧ m'.upvalues[u.index]? = some (.closed (m.registerValue p))
  opened : ∀ {es : Assignments} {m m' : Machine} {u : UpvalueId} {p : Register}, m.History es m' →
    m.upvalues[u.index]? = some (.opened p) → m'.upvalues[u.index]? = some (.opened p) ∨
      ∃ before after m₁ m₂, es = before ++ after ∧ m.History before m₁ ∧ Change [] m₁ m₂ ∧
        m₂.History after m' ∧ m₁.upvalues[u.index]? = some (.opened p) ∧
        m₂.upvalues[u.index]? = some (.closed (m₁.registerValue p)) ∧
        m'.upvalues[u.index]? = some (.closed (lastAssigned u (m₁.registerValue p) after))
  read : ∀ {m : Machine} {u : UpvalueId} {p : Register}, m.Captures →
    m.upvalues[u.index]? = some (.opened p) → m.upvalueValue u = m.registerValue p ∧
      ∃ f, (m.threadAt p.thread).frames[p.level]? = some f
  /-- An assignment changes no other captured variable. -/
  assigned : ∀ {m : Machine} {u : UpvalueId} (v : Value), m.Captures → u.index < m.upvalues.size →
    ∃ m', writeUpvalue u v m = .done () m' ∧ m'.upvalueValue u = v ∧
      ∀ u' : UpvalueId, u'.index < m.upvalues.size → u' ≠ u →
        m'.upvalueValue u' = m.upvalueValue u'
  /-- While an upvalue is open, every capture of its register comes to it. -/
  shared : ∀ {es : Assignments} {m m' : Machine} {u v : UpvalueId} {p : Register}, m.Captures →
    m.History es m' → m.Registered u p → m'.upvalues[u.index]? = some (.opened p) →
    m'.Registered v p → v = u
  closure : ∀ {m m' : Machine} {i : Instruction}, m.Captures →
    closureInstruction i m = .done () m' → ∃ p us f,
      m.prototype.bind (·.children[i.bx]?) = some p ∧ m'.frame.slot i.a = .function f ∧
      m'.functions[f.index]? = some { body := .bytecode p, upvalues := us.toArray } ∧
      List.Forall₂ (m.Supplies m') p.captures us
  jump : ∀ (re : Reentry) {m : Machine} (i : Instruction), m.Captures →
    ∃ m', plainInstruction re .jmp i m = .done () m' ∧ m.Retains m' ∧ m'.Captures ∧
      ∀ u p, m'.Registered u p ↔ m.Registered u p ∧
        ¬(i.a ≠ 0 ∧ p.thread = m.running ∧ p.level = m.frameCount - 1 ∧ i.a ≤ p.slot + 1)
  unwound : ∀ {m : Machine} (depth : Nat), m.Captures →
    ∃ m', truncateFrames depth m = .done () m' ∧ m'.Captures ∧ m.Retains m'
  /-- A return hands over its results before its upvalues are closed, which does them no harm. -/
  returned : ∀ {m : Machine} {i : Instruction} {regs : List Value}, m.Captures →
    m.Returns i regs → ∃ m', returnFrom i.a i.b m = .done m.frame.site m' ∧
      ∀ s u v, m.Registered u (m.ownRegister s) → regs[s]? = some v →
        m'.upvalues[u.index]? = some (.closed v)

def Prototype.sharing : Prototype :=
  { registers := 3
    children := #[{ captures := [.register 0] }]
    code := #[.ofABx .closure 1 0, .ofABx .closure 2 0, .ofABC .return 1 3 0] }

def Machine.sharing : Machine :=
  { Machine.new {} with
    functions := #[{ body := .bytecode .sharing }]
    threads := #[{ isMain := true, parked := false, phase := .running, frames := #[{}, {
      window := #[.int 7, .nil, .nil], top := 3, function := some ⟨0⟩, wanted := -1 }] }] }

end LuaMachine
