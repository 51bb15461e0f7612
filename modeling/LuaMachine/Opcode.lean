namespace LuaMachine

inductive Layout where
  | abc
  | abx
  | asbx
  | ax
deriving DecidableEq, Inhabited

inductive OperandUse where
  | unused
  | plain
  | register
  | registerOrConstant
deriving DecidableEq, Inhabited

inductive Opcode where
  | move
  | loadK
  | loadKX
  | loadBool
  | loadNil
  | getUpval
  | getTabUp
  | getTable
  | setTabUp
  | setUpval
  | setTable
  | newTable
  | self
  | add
  | sub
  | mul
  | mod
  | pow
  | div
  | idiv
  | band
  | bor
  | bxor
  | shl
  | shr
  | unm
  | bnot
  | not
  | len
  | concat
  | jmp
  | eq
  | lt
  | le
  | test
  | testSet
  | call
  | tailCall
  | return
  | forLoop
  | forPrep
  | tforCall
  | tforLoop
  | setList
  | closure
  | vararg
  | extraArg
deriving DecidableEq, Inhabited

structure OpcodeInfo where
  name : String
  /-- The next instruction is a jump, taken or skipped. -/
  isTest : Bool
  setsA : Bool
  useB : OperandUse
  useC : OperandUse
  layout : Layout

namespace Opcode

def all : Array Opcode := #[
  move, loadK, loadKX, loadBool, loadNil, getUpval, getTabUp, getTable, setTabUp, setUpval,
  setTable, newTable, self, add, sub, mul, mod, pow, div, idiv, band, bor, bxor, shl, shr, unm,
  bnot, not, len, concat, jmp, eq, lt, le, test, testSet, call, tailCall, .return, forLoop,
  forPrep, tforCall, tforLoop, setList, closure, vararg, extraArg]

def number (op : Opcode) : Nat := op.ctorIdx

def ofNumber? (n : Nat) : Option Opcode := all[n]?

def info : Opcode → OpcodeInfo
  | move => ⟨"MOVE", false, true, .register, .unused, .abc⟩
  | loadK => ⟨"LOADK", false, true, .registerOrConstant, .unused, .abx⟩
  | loadKX => ⟨"LOADKX", false, true, .unused, .unused, .abx⟩
  | loadBool => ⟨"LOADBOOL", false, true, .plain, .plain, .abc⟩
  | loadNil => ⟨"LOADNIL", false, true, .plain, .unused, .abc⟩
  | getUpval => ⟨"GETUPVAL", false, true, .plain, .unused, .abc⟩
  | getTabUp => ⟨"GETTABUP", false, true, .plain, .registerOrConstant, .abc⟩
  | getTable => ⟨"GETTABLE", false, true, .register, .registerOrConstant, .abc⟩
  | setTabUp => ⟨"SETTABUP", false, false, .registerOrConstant, .registerOrConstant, .abc⟩
  | setUpval => ⟨"SETUPVAL", false, false, .plain, .unused, .abc⟩
  | setTable => ⟨"SETTABLE", false, false, .registerOrConstant, .registerOrConstant, .abc⟩
  | newTable => ⟨"NEWTABLE", false, true, .plain, .plain, .abc⟩
  | self => ⟨"SELF", false, true, .register, .registerOrConstant, .abc⟩
  | add => binary "ADD"
  | sub => binary "SUB"
  | mul => binary "MUL"
  | mod => binary "MOD"
  | pow => binary "POW"
  | div => binary "DIV"
  | idiv => binary "IDIV"
  | band => binary "BAND"
  | bor => binary "BOR"
  | bxor => binary "BXOR"
  | shl => binary "SHL"
  | shr => binary "SHR"
  | unm => unary "UNM"
  | bnot => unary "BNOT"
  | not => unary "NOT"
  | len => unary "LEN"
  | concat => ⟨"CONCAT", false, true, .register, .register, .abc⟩
  | jmp => ⟨"JMP", false, false, .register, .unused, .asbx⟩
  | eq => comparison "EQ"
  | lt => comparison "LT"
  | le => comparison "LE"
  | test => ⟨"TEST", true, false, .unused, .plain, .abc⟩
  | testSet => ⟨"TESTSET", true, true, .register, .plain, .abc⟩
  | call => ⟨"CALL", false, true, .plain, .plain, .abc⟩
  | tailCall => ⟨"TAILCALL", false, true, .plain, .plain, .abc⟩
  | .return => ⟨"RETURN", false, false, .plain, .unused, .abc⟩
  | forLoop => ⟨"FORLOOP", false, true, .register, .unused, .asbx⟩
  | forPrep => ⟨"FORPREP", false, true, .register, .unused, .asbx⟩
  | tforCall => ⟨"TFORCALL", false, false, .unused, .plain, .abc⟩
  | tforLoop => ⟨"TFORLOOP", false, true, .register, .unused, .asbx⟩
  | setList => ⟨"SETLIST", false, false, .plain, .plain, .abc⟩
  | closure => ⟨"CLOSURE", false, true, .plain, .unused, .abx⟩
  | vararg => ⟨"VARARG", false, true, .plain, .unused, .abc⟩
  | extraArg => ⟨"EXTRAARG", false, false, .plain, .plain, .ax⟩
where
  binary (name : String) : OpcodeInfo :=
    ⟨name, false, true, .registerOrConstant, .registerOrConstant, .abc⟩
  unary (name : String) : OpcodeInfo := ⟨name, false, true, .register, .unused, .abc⟩
  comparison (name : String) : OpcodeInfo :=
    ⟨name, true, false, .registerOrConstant, .registerOrConstant, .abc⟩

def name (op : Opcode) : String := op.info.name
def layout (op : Opcode) : Layout := op.info.layout

end Opcode
end LuaMachine
