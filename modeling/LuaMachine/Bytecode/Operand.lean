import LuaMachine.Metamethod.Operator

namespace LuaMachine.Exec

def outOfRange : Error := .thrown (.ofString "program counter out of range")

def fetch : Exec Instruction := do
  let pc ← readFrame Frame.pc
  match ← read fun m => m.prototype.bind (·.code[pc]?) with
  | some i =>
    modifyFrame fun f => { f with pc := pc + 1 }
    return i
  | none => raise outOfRange

/-- The operand of the instruction that has to follow `op`. -/
def fetchExtra (op : Opcode) : Exec Nat := do
  let i ← fetch
  match i.opcode? with
  | some .extraArg => return i.ax
  | _ => fault (.missingExtraArg op)

def register (r : Nat) : Exec Value := readFrame (·.slot r)

@[inline]
def setRegister (r : Nat) (v : Value) : Exec Unit := modifyFrame (·.setSlot r v)

def constant (k : Nat) : Exec Value :=
  read fun m => (m.prototype.bind (·.constants[k]?)).getD .nil

def operand (x : Nat) : Exec Value :=
  if Instruction.isConstant x then constant (Instruction.constantIndex x) else register x

def ownUpvalue (i : Nat) : Exec UpvalueId := do
  match ← read (·.ownUpvalue? i) with
  | some u => return u
  | none => fault (.noUpvalue i)

def registerCount (m : Machine) : Nat := (m.prototype.map Prototype.registers).getD 0

def jump (offset : Int) : Exec Unit :=
  modifyFrame fun f => { f with pc := (f.pc + offset).toNat }

def skipNext : Exec Unit := jump 1

/-- A test is followed by a jump, which is skipped unless the test comes out as expected. -/
def skipUnless (result expected : Bool) : Exec Unit :=
  if result != expected then skipNext else pure ()

end LuaMachine.Exec
