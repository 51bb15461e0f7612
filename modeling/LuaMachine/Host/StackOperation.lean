import LuaMachine.Library

namespace LuaMachine

inductive StackOperation where
  | push (v : Value)
  | drop (n : Nat)
  | setTop (i : Int)
  | top
  | absIndex (i : Int)
  | checkStack (n : Nat)
  | copy (source target : Int)
  | pushValue (i : Int)
  | replace (i : Int)
  | insert (i : Int)
  | remove (i : Int)
  | rotate (i n : Int)
  | kind (i : Int)
  | predicates (i : Int)
  | truth (i : Int)
  | integer (i : Int)
  | integer? (i : Int)
  | number (i : Int)
  | number? (i : Int)
  /-- A number at the index becomes a string in place. -/
  | string? (i : Int)
  | rawLength (i : Int)
  | isNative (i : Int)
  | views (i : Int)
  | hasAddress (i : Int)
  | display (i : Int)
  | values
  | dump (i : Int)
  | pushString (s : String)
  | pushNumeral (s : String)
  | pushScript (script : Nat)
  | pushClosure (script upvalues : Nat)
  | pushGlobals
  | pushThread
  | rawEqual (i j : Int)
deriving Inhabited

namespace Reply

def ofKind (kind : Kind) : Reply := word kind.name
def ofBytes (s : Bytes) : Reply := value (.string s)
def ofString (s : String) : Reply := value (.ofString s)
def ofInt64 (i : Int64) : Reply := value (.int i)
def ofDouble (x : Double) : Reply := value (.float x)

def ofOption : Option Value → Reply
  | some v => value v
  | none => nothing

def ofTable (t : Table) : Reply :=
  table t.items.toList (t.entries.map fun (k, v) => (k.toValue, v)) (t.metatable.map Value.table)

end Reply

def Value.views : Value → List String
  | table _ => ["table"]
  | function _ => ["function"]
  | thread _ => ["thread"]
  | string s => if s.isEmpty then ["string", "empty"] else ["string"]
  | _ => []

def Machine.isNative (m : Machine) : Value → Bool
  | .function f =>
    match (m.functionAt f).body with
    | .native _ => true
    | .bytecode _ => false
  | _ => false

namespace Exec

def silent (x : Exec Unit) : Exec Reply := do
  x
  return .nothing

def predicatesAt (i : Int) : Exec (List String) := do
  let kind ← kindAt i
  let v ← valueAt i
  let isNative ← read (·.isNative v)
  let isInteger := match v with
    | .number (.int _) => true
    | _ => false
  let answers := [
    ("none", kind == .none),
    ("nil", kind == .nil),
    ("none_or_nil", kind == .none || kind == .nil),
    ("boolean", kind == .boolean),
    ("integer", isInteger),
    ("number", v.toNumber?.isSome),
    ("string", kind == .string || kind == .number),
    ("table", kind == .table),
    ("thread", kind == .thread),
    ("function", kind == .function),
    ("native_function", isNative)]
  return (answers.filter Prod.snd).map Prod.fst

def performStack : StackOperation → Exec Reply
  | .push v => silent (push v)
  | .drop n => silent (drop n)
  | .setTop i => silent (setTop i)
  | .top => return .count (← top)
  | .absIndex i => return .count (← absIndex i)
  | .checkStack n => return .truth (← checkStack n)
  | .copy source target => silent (copy source target)
  | .pushValue i => silent (pushValue i)
  | .replace i => silent (replace i)
  | .insert i => silent (insert i)
  | .remove i => silent (remove i)
  | .rotate i n => silent (rotate i n)
  | .kind i => return .ofKind (← kindAt i)
  | .predicates i => return .words (← predicatesAt i)
  | .truth i => return .truth (← valueAt i).truthy
  | .integer i => return .ofInt64 ((← valueAt i).toInt64?.getD 0)
  | .integer? i => return .ofOption ((← valueAt i).toInt64?.map .int)
  | .number i => return .ofDouble ((← valueAt i).toDouble?.getD (.zero false))
  | .number? i => return .ofOption ((← valueAt i).toDouble?.map .float)
  | .string? i => return .ofOption ((← toStringAt? i).map .string)
  | .rawLength i => return .count (← rawLength i)
  | .isNative i => do
    let v ← valueAt i
    return .truth (← read (·.isNative v))
  | .views i => return .words (← valueAt i).views
  | .hasAddress i => return .truth (← valueAt i).address?.isSome
  | .display i => return .ofString (← valueAt i).display
  | .values => return .ofStack (← readFrame Frame.values)
  | .dump i => do
    match ← valueAt i with
    | .table t => return .ofTable (← read (·.table t))
    | v => return .notTable v
  | .pushString s => silent (pushString s)
  | .pushNumeral s => return .truth (← pushNumeral (Bytes.ofString s))
  | .pushScript n => silent (pushNative (.script n))
  | .pushClosure n upvalues => silent (pushClosure (.script n) upvalues)
  | .pushGlobals => silent do push (← read Machine.globals)
  | .pushThread => return .truth (← pushThread)
  | .rawEqual i j => return .truth (← rawEqualAt i j)

end Exec
end LuaMachine
