import LuaMachine.Proofs.Loop

namespace LuaMachine

open Machine

/-- What an operation of the bytecode does that a metamethod can extend. -/
inductive Extension where
  /-- Indexing of an upvalue or of a register. -/
  | index (upvalue : Bool)
  | method
  /-- Assignment into an upvalue or into a register. -/
  | assign (upvalue : Bool)
  | binary (op : Operator)
  | unary (op : Operator)
  | length
  | concat
  | compare (c : Comparison)

def Opcode.extension? : Opcode → Option Extension
  | .getTabUp => some (.index true)
  | .getTable => some (.index false)
  | .self => some .method
  | .setTabUp => some (.assign true)
  | .setTable => some (.assign false)
  | .add => some (.binary .add)
  | .sub => some (.binary .sub)
  | .mul => some (.binary .mul)
  | .mod => some (.binary .mod)
  | .pow => some (.binary .pow)
  | .div => some (.binary .div)
  | .idiv => some (.binary .idiv)
  | .band => some (.binary .band)
  | .bor => some (.binary .bor)
  | .bxor => some (.binary .bxor)
  | .shl => some (.binary .shl)
  | .shr => some (.binary .shr)
  | .unm => some (.unary .unm)
  | .bnot => some (.unary .bnot)
  | .len => some .length
  | .concat => some .concat
  | .eq => some (.compare .eq)
  | .lt => some (.compare .lt)
  | .le => some (.compare .le)
  | _ => none

def Instruction.extension? (i : Instruction) : Option Extension := i.opcode?.bind Opcode.extension?

inductive Finding (α : Type) where
  | value (a : α)
  | fault (cause : Fault)
  | handler (h : Value) (args : List Value)

namespace Machine

variable (m : Machine)

def indexFinding : Nat → Value → Value → Finding Value
  | 0, _, _ => .fault .indexChain
  | n + 1, v, k =>
    match Exec.indexStep m v k with
    | .found stored => .value stored
    | .absent => .value .nil
    | .stuck => .fault (.notIndexable v.kind)
    | .handler (.function f) => .handler (.function f) [v, k]
    | .handler next => indexFinding n next k

def assignFinding : Nat → Value → Value → Value → Finding TableId
  | 0, _, _, _ => .fault .newIndexChain
  | n + 1, v, k, x =>
    match Exec.assignStep m v k with
    | .store t => .value t
    | .stuck => .fault (.notIndexable v.kind)
    | .handler (.function f) => .handler (.function f) [v, k, x]
    | .handler next => assignFinding n next k x

/-- The handler of the left operand, or else that of the right one. -/
def binaryHandler (a b : Value) (e : Event) : Value :=
  if (m.handler a e).isNil then m.handler b e else m.handler a e

def binaryFinding {α : Type} (a b : Value) (e : Event) (otherwise : Finding α) : Finding α :=
  if (m.binaryHandler a b e).isNil then otherwise else .handler (m.binaryHandler a b e) [a, b]

def arithFinding (op : Operator) (a b : Value) : Finding Value :=
  match op.evaluate? a b with
  | .ok (some v) => .value v
  | .error division => .fault (.zeroDivisor division)
  | .ok none => m.binaryFinding a b op.event (.fault (Exec.operandFault op a b))

def equalsFinding (a b : Value) : Finding Bool :=
  match a, b with
  | .table s, .table t => if s = t then .value true else m.binaryFinding a b .eq (.value false)
  | a, b => .value (a.rawEq b)

def lessThanFinding (a b : Value) : Finding Bool :=
  match a.less? b with
  | some r => .value r
  | none => m.binaryFinding a b .lt (.fault (.unordered a.kind b.kind))

/-- `a <= b` is `not (b < a)` if nothing else decides it. -/
def isNegated (a b : Value) : Bool :=
  (a.lessEqual? b).isNone && (m.binaryHandler a b .le).isNil

def lessEqualFinding (a b : Value) : Finding Bool :=
  match a.lessEqual? b with
  | some r => .value r
  | none => m.binaryFinding a b .le (m.binaryFinding b a .lt (.fault (.unordered a.kind b.kind)))

def compareFinding (c : Comparison) (a b : Value) : Finding Bool :=
  match c with
  | .eq => m.equalsFinding a b
  | .lt => m.lessThanFinding a b
  | .le => m.lessEqualFinding a b

def lengthFinding (v : Value) : Finding Value :=
  match v with
  | .string s => .value (.int (Int64.ofNat s.length))
  | v =>
    if (m.handler v .len).isNil then
      match v with
      | .table t => .value (.int (Int64.ofNat (m.table t).length))
      | v => .fault (.noLength v.kind)
    else .handler (m.handler v .len) [v, v]

def concatFinding (a b : Value) : Finding Value :=
  match a.toBytes?, b.toBytes? with
  | some s, some t => .value (.string (s ++ t))
  | s, _ => m.binaryFinding a b .concat
      (.fault (.notConcatenable (if s.isSome then b.kind else a.kind)))

/-- A handler and its arguments are on top, and they are kept besides other values. -/
def posed (h : Value) (args kept : List Value) : Machine :=
  { (m.modifyTop m.running (·.push h)).modifyTop m.running (·.pushAll args) with
    held := args ++ (kept ++ m.held) }

end Machine

structure Question where
  nargs : Nat
  wanted : Int
  /-- What is kept once the metamethod has answered. -/
  held : List Value
deriving DecidableEq

namespace Exec

def pursue {α : Type} (kept : List Value) (wanted : Int) (next : α → Exec (Option Question)) :
    Finding α → Exec (Option Question)
  | .value a => next a
  | .fault cause => fault cause
  | .handler h args => fun m =>
    .done (some ⟨args.length, wanted, m.held⟩) (m.posed h args kept)

def inquireIndex (a : Nat) (v k : Value) : Exec (Option Question) := do
  pursue [v] 1 (fun r => do setRegister a r; return none) (← read (·.indexFinding chainLimit v k))

def inquireAssign (v k x : Value) : Exec (Option Question) := do
  pursue [v] 0 (fun t => do putRaw t k x; return none) (← read (·.assignFinding chainLimit v k x))

def inquireArith (op : Operator) (a : Nat) (x y : Value) : Exec (Option Question) := do
  pursue [] 1 (fun r => do setRegister a r; return none) (← read (·.arithFinding op x y))

def inquireLength (a : Nat) (v : Value) : Exec (Option Question) := do
  pursue [] 1 (fun r => do setRegister a r; return none) (← read (·.lengthFinding v))

def inquireConcat (a b : Nat) : Nat → Exec (Option Question)
  | 0 => do
    setRegister a (← register b)
    return none
  | n + 1 => do
    modifyFrame fun f => { f with concatAt := b + n }
    let left ← register (b + n)
    let right ← register (b + n + 1)
    pursue [] 1
      (fun v => do
        setRegister (b + n) v
        inquireConcat a b n)
      (← read (·.concatFinding left right))

def inquireCompare (c : Comparison) (expected : Bool) (x y : Value) : Exec (Option Question) := do
  let negated ← read fun m => c == .le && m.isNegated x y
  if negated then modifyFrame fun f => { f with negated := true }
  pursue [] 1 (fun r => do skipUnless r expected; return none) (← read (·.compareFinding c x y))

/-- What an instruction does up to the metamethod that it has to call, if it has to call one. -/
def inquireFor (i : Instruction) : Extension → Exec (Option Question)
  | .index true => do
    let v ← readUpvalue (← ownUpvalue i.b)
    inquireIndex i.a v (← operand i.c)
  | .index false => do
    let v ← register i.b
    inquireIndex i.a v (← operand i.c)
  | .method => do
    let v ← register i.b
    let k ← operand i.c
    setRegister (i.a + 1) v
    inquireIndex i.a v k
  | .assign true => do
    let v ← readUpvalue (← ownUpvalue i.a)
    let k ← operand i.b
    inquireAssign v k (← operand i.c)
  | .assign false => do
    let v ← register i.a
    let k ← operand i.b
    inquireAssign v k (← operand i.c)
  | .binary op => do
    let x ← operand i.b
    let y ← operand i.c
    inquireArith op i.a x y
  | .unary op => do
    let x ← register i.b
    inquireArith op i.a x x
  | .length => do inquireLength i.a (← register i.b)
  | .concat => inquireConcat i.a i.b (i.c - i.b)
  | .compare c => do
    let x ← operand i.b
    let y ← operand i.c
    inquireCompare c (i.a != 0) x y

end Exec
end LuaMachine
