import LuaMachine.Comparison
import LuaMachine.Function
import LuaMachine.Journal
import LuaMachine.Thread

namespace LuaMachine

structure Limits where
  stackSize : Nat := 1000000
  callDepth : Nat := 20000
  nesting : Nat := 200
deriving DecidableEq, Inhabited

structure Machine where
  tables : Array Table
  functions : Array Function
  upvalues : Array Upvalue
  threads : Array Thread
  running : ThreadId
  registry : TableId
  metatables : List (Kind × TableId)
  limits : Limits
  /-- The values that calls in progress keep besides those in frames. -/
  held : List Value := []
  printed : Array UInt8
  journal : Array (Entry Reply)
  /-- The values that the host has been shown; it keeps them. -/
  shown : List Value := []
deriving Inhabited

namespace Machine

def mainThreadKey : Int64 := 1
def globalsKey : Int64 := 2

def mainThread : ThreadId := ⟨0⟩

def new (limits : Limits) : Machine :=
  let registry := (({} : Table).putInt mainThreadKey (.thread mainThread)).putInt globalsKey
    (.table ⟨1⟩)
  { tables := #[registry, {}]
    functions := #[]
    upvalues := #[]
    threads := #[{ isMain := true, parked := false, phase := .running }]
    running := mainThread
    registry := ⟨0⟩
    metatables := []
    limits
    printed := #[]
    journal := #[] }

def table (m : Machine) (t : TableId) : Table := m.tables.getD t.index default
def functionAt (m : Machine) (f : FunctionId) : Function := m.functions.getD f.index default
def upvalueAt (m : Machine) (u : UpvalueId) : Upvalue := m.upvalues.getD u.index default
def threadAt (m : Machine) (t : ThreadId) : Thread := m.threads.getD t.index default

def aliasedWindow? (m : Machine) : Upvalue → Option Window
  | .opened r => ((m.threadAt r.thread).frames[r.level]?).map Frame.window
  | .closed _ => none

def upvalueValue (m : Machine) (u : UpvalueId) : Value :=
  (m.upvalueAt u).get (m.aliasedWindow? (m.upvalueAt u))

def frameAt (m : Machine) (t : ThreadId) : Frame := (m.threadAt t).frames.back?.getD default

def thread (m : Machine) : Thread := m.threadAt m.running

def frame (m : Machine) : Frame := m.frameAt m.running

/-- How many frames the running thread has, the one of the host included. -/
def frameCount (m : Machine) : Nat := m.thread.frames.size

def functionOf (m : Machine) (f : Frame) : Option Function := f.function.map m.functionAt

def prototypeOf (m : Machine) (f : Frame) : Option Prototype :=
  match m.functionOf f with
  | some { body := .bytecode p, .. } => some p
  | _ => none

def prototype (m : Machine) : Option Prototype := m.prototypeOf m.frame

def globals (m : Machine) : Value := (m.table m.registry).getInt globalsKey

/-- The metatable of a value: that of the table itself, or the one its type shares. -/
def metatable (m : Machine) : Value → Option TableId
  | .table t => (m.table t).metatable
  | v => (m.metatables.find? (·.1 = v.kind)).map Prod.snd

def handler (m : Machine) (v : Value) (e : Event) : Value :=
  match m.metatable v with
  | some t => (m.table t).getString e.key
  | none => .nil

def locationOf (m : Machine) (f : Frame) : Option String :=
  (m.prototypeOf f).bind fun p => p.location? (f.pc - 1)

def location (m : Machine) : Option String := m.locationOf m.frame

def isGuarded (m : Machine) (level : Nat) : Bool :=
  (m.thread.frames[level]?).any (·.guard.isSome)

def guardedLevel? (m : Machine) (stop : Nat) : Option Nat :=
  (List.range' stop (m.frameCount - stop)).reverse.find? m.isGuarded

end Machine
end LuaMachine
