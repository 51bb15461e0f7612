import LuaMachine.Library.Coroutine

namespace LuaMachine

/-- Runs a function of the libraries in the running frame; the answer is the number of its
results. -/
def Builtin.run (re : Reentry) : Builtin → Exec Nat
  | openBase => Library.Base.make re
  | openCoroutine => Library.Coroutine.make re
  | assert => Library.Base.assert re
  | error => Library.Base.error re
  | getmetatable => Library.Base.getmetatable
  | ipairs => Library.Base.ipairs
  | ipairsStep => Library.Base.ipairsStep re
  | next => Library.Base.next
  | pairs => Library.Base.pairs re
  | pcall => Library.Base.pcall re
  | print => Library.Base.print re
  | rawequal => Library.Base.rawequal
  | rawget => Library.Base.rawget
  | rawlen => Library.Base.rawlen
  | rawset => Library.Base.rawset
  | select => Library.Base.select
  | setmetatable => Library.Base.setmetatable
  | tonumber => Library.Base.tonumber
  | tostring => Library.Base.tostring re
  | type => Library.Base.type
  | xpcall => Library.Base.xpcall re
  | create => Library.Coroutine.create
  | isyieldable => Library.Coroutine.isyieldable
  | resume => Library.Coroutine.resume re
  | running => Library.Coroutine.running
  | status => Library.Coroutine.status
  | wrap => Library.Coroutine.wrap
  | wrapped => Library.Coroutine.wrapped re
  | yield => Library.Coroutine.yield

inductive Library where
  | base
  | coroutine
  | all
deriving DecidableEq, Inhabited

namespace Library

structure Opener where
  name : String
  function : Builtin

def baseOpener : Opener := ⟨"_G", .openBase⟩
def coroutineOpener : Opener := ⟨"coroutine", .openCoroutine⟩

def openers : Library → List Opener
  | base => [baseOpener]
  | coroutine => [coroutineOpener]
  | all => [baseOpener, coroutineOpener]

def openGlobally (re : Reentry) (library : Library) : Exec Unit :=
  library.openers.forM fun opener => do
    Exec.require re (Bytes.ofString opener.name) (.builtin opener.function) true
    Exec.drop 1

end Library
end LuaMachine
