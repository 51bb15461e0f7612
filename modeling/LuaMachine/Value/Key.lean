import LuaMachine.Value

namespace LuaMachine

inductive Key where
  | bool (b : Bool)
  | int (i : Int64)
  | float (x : Double)
  | string (s : Bytes)
  | table (t : TableId)
  | function (f : FunctionId)
  | thread (t : ThreadId)
deriving DecidableEq

namespace Key

def ofNumber? (n : Number) : Option Key :=
  match n.toInt64? with
  | some i => some (int i)
  | none => if n.toDouble.isNaN then none else some (float n.toDouble)

/-- The normal form of a value, unless it is nil or NaN. -/
def ofValue? : Value → Option Key
  | .nil => none
  | .bool b => some (bool b)
  | .number n => ofNumber? n
  | .string s => some (string s)
  | .table t => some (table t)
  | .function f => some (function f)
  | .thread t => some (thread t)

def toValue : Key → Value
  | bool b => .bool b
  | int i => .int i
  | float x => .float x
  | string s => .string s
  | table t => .table t
  | function f => .function f
  | thread t => .thread t

end Key
end LuaMachine
