import LuaMachine.Machine

/-!
Which objects the machine retains. An object is let go once nothing refers to it any more; objects
that refer to each other in a circle are never let go. The main thread has a name only as long as
its object is retained; any other thread is named by whoever has resumed it.
-/

namespace LuaMachine

structure Marks where
  tables : Array Bool
  functions : Array Bool
  threads : Array Bool

namespace Marks

def add (marks : Marks) : Value → Marks
  | .table t => { marks with tables := marks.tables.setIfInBounds t.index true }
  | .function f => { marks with functions := marks.functions.setIfInBounds f.index true }
  | .thread t => { marks with threads := marks.threads.setIfInBounds t.index true }
  | _ => marks

def contains (marks : Marks) : Value → Bool
  | .table t => marks.tables.getD t.index false
  | .function f => marks.functions.getD f.index false
  | .thread t => marks.threads.getD t.index false
  | _ => false

end Marks

/-- Everything that a table holds; an order of traversal keeps its keys. -/
def Table.contents (t : Table) : List Value :=
  t.items.toList ++ t.entries.flatMap (fun (k, v) => [k.toValue, v]) ++
    t.metatable.toList.map .table ++ (t.order.getD []).map Key.toValue

def Frame.contents (f : Frame) : List Value :=
  f.window.toList ++ f.varargs ++ f.function.toList.map .function ++
    (f.guard.bind Guard.handler).toList

def Thread.contents (t : Thread) : List Value :=
  t.transfer ++ t.frames.toList.flatMap Frame.contents

/-- A coroutine is held by whoever has taken it up. -/
def Thread.isTakenUp (t : Thread) : Bool := !t.parked && !t.isMain

namespace Machine

/-- What an object refers to. Frames of a thread that is not at rest are not held by its object. -/
def references (m : Machine) : Value → List Value
  | .table t => (m.table t).contents
  | .function f => (m.functionAt f).upvalues.toList.map m.upvalueValue
  | .thread t => if (m.threadAt t).parked then (m.threadAt t).contents else []
  | _ => []

def allTables (m : Machine) : List Value :=
  (List.range m.tables.size).map fun i => .table ⟨i⟩

def allFunctions (m : Machine) : List Value :=
  (List.range m.functions.size).map fun i => .function ⟨i⟩

def allThreads (m : Machine) : List Value :=
  (List.range m.threads.size).map fun i => .thread ⟨i⟩

def allObjects (m : Machine) : List Value := m.allTables ++ m.allFunctions ++ m.allThreads

def roots (m : Machine) : List Value :=
  .table m.registry :: m.metatables.map (.table ·.2) ++ m.held ++ m.shown ++
    (m.threads.toList.filter (!·.parked)).flatMap Thread.contents ++
    m.allThreads.filter fun
      | .thread t => (m.threadAt t).isTakenUp
      | _ => false

def unmarked (m : Machine) : Marks :=
  { tables := Array.replicate m.tables.size false
    functions := Array.replicate m.functions.size false
    threads := Array.replicate m.threads.size false }

def referred (m : Machine) (objects : List Value) : List Value :=
  let marks := (m.roots ++ objects.flatMap m.references).foldl Marks.add m.unmarked
  objects.filter marks.contains

/-- Lets go of objects, again and again, that neither a root nor one of the others refers to. -/
def retainedOf (m : Machine) (objects : List Value) : List Value :=
  if (m.referred objects).length < objects.length then retainedOf m (m.referred objects)
  else objects
termination_by objects.length

def isRetained (m : Machine) (v : Value) : Bool := (m.retainedOf m.allObjects).contains v

def isNamed (m : Machine) (t : ThreadId) : Bool :=
  !(m.threadAt t).isMain || ((m.table m.registry).getInt mainThreadKey).rawEq (.thread t) ||
    m.isRetained (.thread t)

def inMainThread (m : Machine) : Bool := m.thread.isMain && m.isNamed m.running

end Machine
end LuaMachine
