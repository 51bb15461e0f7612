import LuaMachine.Opcode

/-!
Instruction words: the opcode in the low 6 bits, then A (8 bits), C (9 bits) and B (9 bits). Bx
joins C and B to 18 bits, sBx is Bx less an offset, Ax joins everything above the opcode. An
operand B or C of 256 or more can name a constant.
-/

namespace LuaMachine

structure Instruction where
  word : UInt32
deriving DecidableEq, Inhabited

structure Field where
  position : UInt32
  width : UInt32

namespace Field

def opcode : Field := ⟨0, 6⟩
def a : Field := ⟨6, 8⟩
def b : Field := ⟨23, 9⟩
def c : Field := ⟨14, 9⟩
def bx : Field := ⟨14, 18⟩
def ax : Field := ⟨6, 26⟩

def limit (f : Field) : UInt32 := (1 <<< f.width) - 1

def get (f : Field) (word : UInt32) : UInt32 := (word >>> f.position) &&& f.limit

def place (f : Field) (v : UInt32) : UInt32 := (v &&& f.limit) <<< f.position

def set (f : Field) (word v : UInt32) : UInt32 :=
  (word &&& ~~~(f.limit <<< f.position)) ||| f.place v

end Field

namespace Instruction

def signedOffset : Int := 131071

/-- Operands with this bit name a constant. -/
def constantBit : UInt32 := 256

def opcodeNumber (i : Instruction) : Nat := (Field.opcode.get i.word).toNat
def opcode? (i : Instruction) : Option Opcode := Opcode.ofNumber? i.opcodeNumber

def a (i : Instruction) : Nat := (Field.a.get i.word).toNat
def b (i : Instruction) : Nat := (Field.b.get i.word).toNat
def c (i : Instruction) : Nat := (Field.c.get i.word).toNat
def bx (i : Instruction) : Nat := (Field.bx.get i.word).toNat
def sbx (i : Instruction) : Int := i.bx - signedOffset
def ax (i : Instruction) : Nat := (Field.ax.get i.word).toNat

def setA (i : Instruction) (v : UInt32) : Instruction := ⟨Field.a.set i.word v⟩
def setB (i : Instruction) (v : UInt32) : Instruction := ⟨Field.b.set i.word v⟩
def setC (i : Instruction) (v : UInt32) : Instruction := ⟨Field.c.set i.word v⟩

def isConstant (operand : Nat) : Bool := UInt32.ofNat operand &&& constantBit != 0
def constantIndex (operand : Nat) : Nat := (UInt32.ofNat operand &&& ~~~constantBit).toNat

def head (op : Opcode) (a : UInt32) : UInt32 :=
  Field.opcode.place (UInt32.ofNat op.number) ||| Field.a.place a

def ofABC (op : Opcode) (a b c : UInt32) : Instruction :=
  ⟨head op a ||| Field.b.place b ||| Field.c.place c⟩

def ofABx (op : Opcode) (a bx : UInt32) : Instruction :=
  ⟨head op a ||| Field.bx.place bx⟩

def ofAsBx (op : Opcode) (a : UInt32) (sbx : Int) : Instruction :=
  ofABx op a (Int32.ofInt (sbx + signedOffset)).toUInt32

def ofAx (op : Opcode) (ax : UInt32) : Instruction :=
  ⟨Field.opcode.place (UInt32.ofNat op.number) ||| Field.ax.place ax⟩

def text (i : Instruction) : String :=
  match i.opcode? with
  | none => s!"<invalid opcode {i.opcodeNumber}>"
  | some op =>
    match op.layout with
    | .abc => s!"{op.name} {i.a} {i.b} {i.c}"
    | .abx => s!"{op.name} {i.a} {i.bx}"
    | .asbx => s!"{op.name} {i.a} {i.sbx}"
    | .ax => s!"{op.name} {i.ax}"

end Instruction
end LuaMachine
