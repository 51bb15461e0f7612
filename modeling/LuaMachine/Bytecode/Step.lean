import LuaMachine.Bytecode.NumericLoop
import LuaMachine.Bytecode.OpenList
import LuaMachine.Metamethod.Index

namespace LuaMachine.Exec

variable (re : Reentry)

/-- Folds the registers from `b` up to `b + n` from the right into A. Each partial result
replaces its left operand, so that the fold can go on where a metamethod has yielded. -/
def concatFrom (a b : Nat) : Nat → Exec Unit
  | 0 => do setRegister a (← register b)
  | n + 1 => do
    modifyFrame fun f => { f with concatAt := b + n }
    let left ← register (b + n)
    let right ← register (b + n + 1)
    setRegister (b + n) (← concatPair re left right)
    concatFrom a b n

def arithInstruction (op : Operator) (i : Instruction) : Exec Unit := do
  let x ← operand i.b
  let y ← operand i.c
  setRegister i.a (← arith re op x y)

def unaryInstruction (op : Operator) (i : Instruction) : Exec Unit := do
  let x ← register i.b
  setRegister i.a (← arith re op x x)

def compareInstruction (c : Comparison) (i : Instruction) : Exec Unit := do
  let x ← operand i.b
  let y ← operand i.c
  skipUnless (← compare re c x y) (i.a != 0)

def indexInstruction (a : Nat) (v : Value) (key : Nat) : Exec Unit := do
  let k ← operand key
  setRegister a (← index re v k)

def assignInstruction (v : Value) (key value : Nat) : Exec Unit := do
  let k ← operand key
  let x ← operand value
  assign re v k x

def methodInstruction (i : Instruction) : Exec Unit := do
  let v ← register i.b
  let k ← operand i.c
  setRegister (i.a + 1) v
  setRegister i.a (← index re v k)

/-- Captured registers are shared with the closures that have captured them before. -/
def closureInstruction (i : Instruction) : Exec Unit := do
  match ← read fun m => m.prototype.bind (·.children[i.bx]?) with
  | none => fault (.noPrototype i.bx)
  | some p =>
    let upvalues ← p.captures.mapM fun
      | .register slot => capture slot
      | .upvalue index => ownUpvalue index
    let f ← newFunction { body := .bytecode p, upvalues := upvalues.toArray }
    setRegister i.a (.function f)

def plainInstruction (op : Opcode) (i : Instruction) : Exec Unit := do
  match op with
  | .move => setRegister i.a (← register i.b)
  | .loadK => setRegister i.a (← constant i.bx)
  | .loadKX => setRegister i.a (← constant (← fetchExtra .loadKX))
  | .loadBool =>
    setRegister i.a (.bool (i.b != 0))
    if i.c != 0 then skipNext
  | .loadNil => (List.range' i.a (i.b + 1)).forM fun r => setRegister r .nil
  | .getUpval => setRegister i.a (← readUpvalue (← ownUpvalue i.b))
  | .getTabUp => indexInstruction re i.a (← readUpvalue (← ownUpvalue i.b)) i.c
  | .getTable => indexInstruction re i.a (← register i.b) i.c
  | .setTabUp => assignInstruction re (← readUpvalue (← ownUpvalue i.a)) i.b i.c
  | .setUpval =>
    let v ← register i.a
    writeUpvalue (← ownUpvalue i.b) v
  | .setTable => assignInstruction re (← register i.a) i.b i.c
  | .newTable => setRegister i.a (.table (← newTable {}))
  | .self => methodInstruction re i
  | .add => arithInstruction re .add i
  | .sub => arithInstruction re .sub i
  | .mul => arithInstruction re .mul i
  | .mod => arithInstruction re .mod i
  | .pow => arithInstruction re .pow i
  | .div => arithInstruction re .div i
  | .idiv => arithInstruction re .idiv i
  | .band => arithInstruction re .band i
  | .bor => arithInstruction re .bor i
  | .bxor => arithInstruction re .bxor i
  | .shl => arithInstruction re .shl i
  | .shr => arithInstruction re .shr i
  | .unm => unaryInstruction re .unm i
  | .bnot => unaryInstruction re .bnot i
  | .not => setRegister i.a (.bool !(← register i.b).truthy)
  | .len => setRegister i.a (← length re (← register i.b))
  | .concat => concatFrom re i.a i.b (i.c - i.b)
  | .jmp =>
    jump i.sbx
    if i.a != 0 then closeFrom (i.a - 1)
  | .eq => compareInstruction re .eq i
  | .lt => compareInstruction re .lt i
  | .le => compareInstruction re .le i
  | .test => skipUnless (← register i.a).truthy (i.c != 0)
  | .testSet =>
    let v ← register i.b
    if v.truthy == (i.c != 0) then setRegister i.a v else skipNext
  | .call => callRegister re i.a i.b i.c
  | .tailCall => callRegister re i.a i.b 0
  | .forLoop => advanceLoop i.a i.sbx
  | .forPrep => prepareLoop i.a i.sbx
  | .tforCall => callIterator re i.a i.c
  | .tforLoop =>
    let v ← register (i.a + 1)
    if !v.isNil then
      setRegister i.a v
      jump i.sbx
  | .setList => setList i
  | .closure => closureInstruction i
  | .vararg => copyVarargs i.a i.b
  | .extraArg => fault .strayExtraArg
  | .return => pure ()

end LuaMachine.Exec
