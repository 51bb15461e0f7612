import LuaMachine.Host.StackOperation

namespace LuaMachine

structure NamedScript where
  name : String
  script : Nat

inductive LibraryOperation where
  | argumentError (i : Int) (text : String)
  | callerError (text : String)
  | checkThat (holds : Bool) (i : Int) (text : String)
  | location (level : Nat)
  | checkAny (i : Int)
  | checkKind (i : Int) (kind : Kind)
  | checkInteger (i : Int)
  | checkNumber (i : Int)
  | checkString (i : Int)
  | optionalInteger (i : Int) (default : Int64)
  | optionalNumber (i : Int) (default : Double)
  | optionalString (i : Int) (default : String)
  | integerLength (i : Int)
  | pushText (i : Int)
  | getMetafield (i : Int) (name : String)
  | callMetafield (i : Int) (name : String)
  | getSubtable (i : Int) (name : String)
  | require (library : NamedScript) (global : Bool)
  | newLibrary (functions : List NamedScript)
  | setFunctions (functions : List NamedScript) (upvalues : Nat)
  | openLibrary (library : Library)
deriving Inhabited

def NamedScript.functions (scripts : List NamedScript) : List (Bytes × Native) :=
  scripts.map fun s => (Bytes.ofString s.name, .script s.script)

namespace Exec

variable (re : Reentry)

def performLibrary : LibraryOperation → Exec Reply
  | .argumentError i text => argumentError i text
  | .callerError text => callerError text
  | .checkThat holds i text => silent (checkThat holds i text)
  | .location level => return .ofString (← read (·.whereText level))
  | .checkAny i => silent (checkAny i)
  | .checkKind i kind => silent (checkKind i kind)
  | .checkInteger i => return .ofInt64 (← checkInt i)
  | .checkNumber i => return .ofDouble (← checkNumber i)
  | .checkString i => return .ofBytes (← checkString i)
  | .optionalInteger i n => return .ofInt64 (← optional i n checkInt)
  | .optionalNumber i x => return .ofDouble (← optional i x checkNumber)
  | .optionalString i s => return .ofBytes (← optional i (Bytes.ofString s) checkString)
  | .integerLength i => return .ofInt64 (← integerLength re i)
  | .pushText i => return .ofBytes (← pushText re i)
  | .getMetafield i name => return .ofKind (← getMetafield i (Bytes.ofString name))
  | .callMetafield i name => return .truth (← callMetafield re i (Bytes.ofString name))
  | .getSubtable i name => return .truth (← getSubtable re i (Bytes.ofString name))
  | .require library global =>
    silent (require re (Bytes.ofString library.name) (.script library.script) global)
  | .newLibrary functions => silent (newLibrary re (NamedScript.functions functions))
  | .setFunctions functions n => silent (setFunctions re (NamedScript.functions functions) n)
  | .openLibrary library => silent (library.openGlobally re)

end Exec
end LuaMachine
