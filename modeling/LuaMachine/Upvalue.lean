import LuaMachine.Window

namespace LuaMachine

/-- A register of a live frame; `level` counts the frames of a thread from the bottom. -/
structure Register where
  thread : ThreadId
  level : Nat
  slot : Nat
deriving DecidableEq, Inhabited

structure UpvalueId where
  index : Nat
deriving DecidableEq, Inhabited

inductive Upvalue where
  | opened (register : Register)
  | closed (value : Value)
deriving DecidableEq, Inhabited

namespace Upvalue

def isOpen : Upvalue → Bool
  | opened _ => true
  | closed _ => false

/-- The value of an upvalue, given the window that an open one aliases, if there still is one. -/
def get (window : Option Window) : Upvalue → Value
  | opened r => (window.map (·.read r.slot)).getD .nil
  | closed v => v

def set (window : Option Window) (v : Value) : Upvalue → Upvalue × Option Window
  | opened r => (opened r, window.map (·.write r.slot v))
  | closed _ => (closed v, window)

def close (window : Option Window) (u : Upvalue) : Upvalue := closed (u.get window)

end Upvalue
end LuaMachine
