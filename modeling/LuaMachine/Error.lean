import LuaMachine.Fault

namespace LuaMachine

inductive Error where
  | fault (cause : Fault) (place : Option String)
  /-- A traversal was asked for the successor of a key that its table never had. -/
  | unknownKey
  | thrown (value : Value)
  | handlerFailed
  | outOfMemory
  | yield
deriving DecidableEq

inductive Status where
  | ok
  | yield
  | runtimeError
  | syntaxError
  | memoryError
  | handlerError
  | fileError
deriving DecidableEq, Inhabited

namespace Status

def all : List Status :=
  [ok, yield, runtimeError, syntaxError, memoryError, handlerError, fileError]

/-- The number 5 is not in use. -/
def code : Status → Nat
  | ok => 0
  | yield => 1
  | runtimeError => 2
  | syntaxError => 3
  | memoryError => 4
  | handlerError => 6
  | fileError => 7

end Status

namespace Error

def message : Error → String
  | fault cause none => cause.message
  | fault cause (some place) => s!"{place} {cause.message}"
  | unknownKey => "invalid key to 'next'"
  | thrown (.string s) => Utf8.lossy s
  | thrown (.number n) => n.text
  | thrown v => s!"(error object is a {v.kind.name} value)"
  | handlerFailed => "error in error handling"
  | outOfMemory => "not enough memory"
  | yield => "attempt to yield from outside a coroutine"

def toValue : Error → Value
  | thrown v => v
  | e => .ofString e.message

def status : Error → Status
  | handlerFailed => .handlerError
  | outOfMemory => .memoryError
  | yield => .yield
  | _ => .runtimeError

def isYield : Error → Bool
  | yield => true
  | _ => false

end Error
end LuaMachine
