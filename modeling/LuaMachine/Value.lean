import LuaMachine.Numeral

namespace LuaMachine

structure TableId where
  index : Nat
deriving DecidableEq, Inhabited

structure FunctionId where
  index : Nat
deriving DecidableEq, Inhabited

structure ThreadId where
  index : Nat
deriving DecidableEq, Inhabited

inductive Kind where
  | none
  | nil
  | boolean
  | number
  | string
  | table
  | function
  | thread
deriving DecidableEq, Inhabited

namespace Kind

def all : List Kind := [none, nil, boolean, number, string, table, function, thread]

def name : Kind → String
  | none => "no value"
  | nil => "nil"
  | boolean => "boolean"
  | number => "number"
  | string => "string"
  | table => "table"
  | function => "function"
  | thread => "thread"

/-- The numbers 2 and 7 are left to types that this machine does not have. -/
def tag : Kind → Int
  | none => -1
  | nil => 0
  | boolean => 1
  | number => 3
  | string => 4
  | table => 5
  | function => 6
  | thread => 8

end Kind

inductive Value where
  | nil
  | bool (b : Bool)
  | number (n : Number)
  | string (s : Bytes)
  | table (t : TableId)
  | function (f : FunctionId)
  | thread (t : ThreadId)
deriving DecidableEq, Inhabited

namespace Value

def int (i : Int64) : Value := number (.int i)
def float (x : Double) : Value := number (.float x)
def ofString (s : String) : Value := string (Bytes.ofString s)

def kind : Value → Kind
  | nil => .nil
  | bool _ => .boolean
  | number _ => .number
  | string _ => .string
  | table _ => .table
  | function _ => .function
  | thread _ => .thread

def isNil : Value → Bool
  | nil => true
  | _ => false

def truthy : Value → Bool
  | nil | bool false => false
  | _ => true

def rawEq : Value → Value → Bool
  | nil, nil => true
  | bool a, bool b => a == b
  | number a, number b => a.eq b
  | string a, string b => a == b
  | table a, table b => a == b
  | function a, function b => a == b
  | thread a, thread b => a == b
  | _, _ => false

def toNumber? : Value → Option Number
  | number n => some n
  | string s => Numeral.read s
  | _ => none

def toDouble? (v : Value) : Option Double := v.toNumber?.map Number.toDouble

def toInt64? (v : Value) : Option Int64 := v.toNumber?.bind Number.toInt64?

/-- Strings as they are and numbers in decimal notation. -/
def toBytes? : Value → Option Bytes
  | number n => some (Bytes.ofString n.text)
  | string s => some s
  | _ => none

def address? : Value → Option Nat
  | table t => some (0x550000000000 + 64 * t.index)
  | function f => some (0x550000000000 + 64 * f.index + 16)
  | thread t => some (0x550000000000 + 64 * t.index + 32)
  | _ => none

def addressText (v : Value) : String :=
  "0x" ++ Text.hexadecimal (v.address?.getD 0)

def display : Value → String
  | nil => "nil"
  | bool b => if b then "true" else "false"
  | number n => n.text
  | string s => Utf8.lossy s
  | v => v.kind.name ++ ": " ++ v.addressText

end Value
end LuaMachine
