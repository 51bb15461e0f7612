import LuaMachine.Prototype
import LuaMachine.Upvalue

namespace LuaMachine

inductive Builtin where
  | openBase
  | openCoroutine
  | assert
  | error
  | getmetatable
  | ipairs
  | ipairsStep
  | next
  | pairs
  | pcall
  | print
  | rawequal
  | rawget
  | rawlen
  | rawset
  | select
  | setmetatable
  | tonumber
  | tostring
  | type
  | xpcall
  | create
  | isyieldable
  | resume
  | running
  | status
  | wrap
  | wrapped
  | yield
deriving DecidableEq, Inhabited

inductive Native where
  | builtin (f : Builtin)
  | script (number : Nat)
deriving DecidableEq, Inhabited

inductive Body where
  | bytecode (p : Prototype)
  | native (f : Native)
deriving Inhabited

structure Function where
  body : Body
  upvalues : Array UpvalueId := #[]

/-- A function that does not exist counts as one whose calls change nothing but the caller's stack. -/
instance : Inhabited Function := ⟨{ body := .native (.builtin .isyieldable) }⟩

end LuaMachine
