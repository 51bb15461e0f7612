import LuaMachine.Exec

namespace LuaMachine.Exec

def newTable (t : Table) : Exec TableId := fun m =>
  .done ⟨m.tables.size⟩ { m with tables := m.tables.push t }

def newFunction (f : Function) : Exec FunctionId := fun m =>
  .done ⟨m.functions.size⟩ { m with functions := m.functions.push f }

def newUpvalue (u : Upvalue) : Exec UpvalueId := fun m =>
  .done ⟨m.upvalues.size⟩ { m with upvalues := m.upvalues.push u }

def newThread (t : Thread) : Exec ThreadId := fun m =>
  .done ⟨m.threads.size⟩ { m with threads := m.threads.push t }

def newNative (f : Native) (values : List Value) : Exec FunctionId := do
  let upvalues ← values.mapM fun v => newUpvalue (.closed v)
  newFunction { body := .native f, upvalues := upvalues.toArray }

@[inline]
def modifyTable (t : TableId) (f : Table → Table) : Exec Unit :=
  modify fun m => { m with tables := m.tables.modify t.index f }

@[inline]
def modifyThreadAt (t : ThreadId) (f : Thread → Thread) : Exec Unit :=
  modify fun m => { m with threads := m.threads.modify t.index f }

@[inline]
def modifyThread (f : Thread → Thread) : Exec Unit :=
  modify fun m => { m with threads := m.threads.modify m.running.index f }

@[inline]
def modifyFrameAt (t : ThreadId) (level : Nat) (f : Frame → Frame) : Exec Unit :=
  modifyThreadAt t fun th => { th with frames := modifyFrames level f th.frames }

@[inline]
def modifyFrame (f : Frame → Frame) : Exec Unit :=
  modifyThread fun th => { th with frames := modifyFrames (th.frames.size - 1) f th.frames }

@[inline]
def readThread {α : Type} (f : Thread → α) : Exec α := read fun m => f m.thread

@[inline]
def readFrame {α : Type} (f : Frame → α) : Exec α := read fun m => f m.frame

def frameCount : Exec Nat := read Machine.frameCount

def putRaw (t : TableId) (k v : Value) : Exec Unit :=
  match Key.ofValue? k with
  | some k => modifyTable t (·.putKey k v)
  | none => fault (.badKey (if k.isNil then .nil else .nan))

def readUpvalue (u : UpvalueId) : Exec Value := read (·.upvalueValue u)

def setUpvalue (u : UpvalueId) (state : Upvalue) : Exec Unit :=
  modify fun m => { m with upvalues := m.upvalues.setIfInBounds u.index state }

def writeUpvalue (u : UpvalueId) (v : Value) : Exec Unit := do
  match ← read (·.upvalues[u.index]?) with
  | some (.opened r) => modifyFrameAt r.thread r.level (·.setSlot r.slot v)
  | some (.closed _) => setUpvalue u (.closed v)
  | none => pure ()

def closeUpvalue (u : UpvalueId) : Exec Unit := do
  setUpvalue u (.closed (← readUpvalue u))

def closeFrom (start : Nat) : Exec Unit := do
  let captured ← readFrame Frame.captured
  if !captured.isEmpty then
    (captured.filter (start ≤ ·.1)).forM fun (_, u) => closeUpvalue u
    modifyFrame fun f => { f with captured := f.captured.filter (·.1 < start) }

/-- The open upvalue of a slot of the running frame; all closures over the slot share it. -/
def capture (slot : Nat) : Exec UpvalueId := do
  match (← readFrame Frame.captured).find? (·.1 = slot) with
  | some (_, u) => pure u
  | none =>
    let register ← read fun m => { thread := m.running, level := m.frameCount - 1, slot }
    let u ← newUpvalue (.opened register)
    modifyFrame fun f => { f with captured := (slot, u) :: f.captured }
    pure u

def pushFrame (f : Frame) : Exec Unit :=
  modifyThread fun th => { th with frames := th.frames.push f }

def popFrame : Exec Unit := do
  closeFrom 0
  modifyThread fun th => { th with frames := th.frames.pop }

def popFrames : Nat → Exec Unit
  | 0 => pure ()
  | n + 1 => do popFrame; popFrames n

def truncateFrames (depth : Nat) : Exec Unit := do
  popFrames ((← frameCount) - depth)

end LuaMachine.Exec
