import LuaMachine.Exec.Heap

namespace LuaMachine

/-- The index of the registry; the upvalues follow below it. -/
def registryIndex : Int := -1001000

def upvalueIndex (i : Int) : Int := registryIndex - i

inductive Place where
  | slot (i : Nat)
  | upvalue (i : Nat)
  | registry
  | nowhere
deriving DecidableEq

namespace Frame

def absolute (f : Frame) (i : Int) : Int :=
  if 0 ≤ i ∨ i ≤ registryIndex then i else f.top + i + 1

def place (f : Frame) (i : Int) : Place :=
  if i < registryIndex then .upvalue (registryIndex - i - 1).toNat
  else if i = registryIndex then .registry
  else
    let i := f.absolute i
    if 0 < i ∧ i ≤ f.top then .slot (i.toNat - 1) else .nowhere

end Frame

namespace Machine

def ownUpvalue? (m : Machine) (i : Nat) : Option UpvalueId :=
  (m.functionOf m.frame).bind (·.upvalues[i]?)

def isValid (m : Machine) (i : Int) : Bool :=
  match m.frame.place i with
  | .slot _ | .registry => true
  | .upvalue u => (m.ownUpvalue? u).isSome
  | .nowhere => false

end Machine

namespace Exec

@[inline]
def push (v : Value) : Exec Unit := modifyFrame (·.push v)

def pushAll (vs : List Value) : Exec Unit := modifyFrame (·.pushAll vs)

/-- Pushes as many of the values as are wanted, filled up with nil. -/
def pushAdjusted (vs : List Value) (wanted : Int) : Exec Unit := pushAll (adjust vs wanted)

def pushString (s : String) : Exec Unit := push (.ofString s)

def pushInt (i : Int64) : Exec Unit := push (.int i)

def pushNative (f : Native) : Exec Unit := do push (.function (← newNative f []))

def pop : Exec Value := do
  let v ← readFrame Frame.peek
  modifyFrame (·.drop 1)
  pure v

def popMany (n : Nat) : Exec (List Value) := do
  let vs ← readFrame (·.topValues n)
  modifyFrame (·.drop n)
  pure vs

def drop (n : Nat) : Exec Unit := modifyFrame (·.drop n)

def top : Exec Nat := readFrame Frame.top

def isValid (i : Int) : Exec Bool := read (·.isValid i)

/-- The value at an index; nil if the index is not valid. -/
def valueAt (i : Int) : Exec Value := do
  match ← readFrame (·.place i) with
  | .slot i => readFrame (·.slot i)
  | .registry => read fun m => .table m.registry
  | .upvalue u =>
    match ← read (·.ownUpvalue? u) with
    | some u => readUpvalue u
    | none => pure .nil
  | .nowhere => pure .nil

/-- Stores at an index; nothing happens if the index is not valid or is that of the registry. -/
def storeAt (i : Int) (v : Value) : Exec Unit := do
  match ← readFrame (·.place i) with
  | .slot i => modifyFrame (·.setSlot i v)
  | .upvalue u =>
    match ← read (·.ownUpvalue? u) with
    | some u => writeUpvalue u v
    | none => pure ()
  | .registry | .nowhere => pure ()

def kindAt (i : Int) : Exec Kind := do
  if ← isValid i then return (← valueAt i).kind else return .none

def absIndex (i : Int) : Exec Int := readFrame (·.absolute i)

def checkStack (n : Nat) : Exec Bool := read fun m => m.frame.top + n ≤ m.limits.stackSize

def copy (source target : Int) : Exec Unit := do storeAt target (← valueAt source)

def pushValue (i : Int) : Exec Unit := do push (← valueAt i)

/-- Pops a value and stores it at an index that is resolved before. -/
def replace (i : Int) : Exec Unit := do
  let i ← absIndex i
  storeAt i (← pop)

/-- Turns the values from an index to the top by `n` places, towards the top if positive. -/
def rotate (i n : Int) : Exec Unit := do
  let start ← absIndex i
  if 1 ≤ start then modifyFrame (·.rotate (start.toNat - 1) n) else pure ()

def insert (i : Int) : Exec Unit := rotate i 1

def remove (i : Int) : Exec Unit := do
  rotate i (-1)
  drop 1

def setTop (i : Int) : Exec Unit :=
  modifyFrame fun f => f.setTop (if 0 ≤ i then i else f.top + i + 1).toNat

end Exec
end LuaMachine
