import LuaMachine.Double.Arith
import LuaMachine.Double.Decimal
import LuaMachine.Integer

namespace LuaMachine

inductive Number where
  | int (i : Int64)
  | float (x : Double)
deriving DecidableEq, Inhabited

namespace Number

def toDouble : Number → Double
  | int i => Double.ofInt64 i
  | float x => x

def toInt64? : Number → Option Int64
  | int i => some i
  | float x => x.toInt64?

def eq : Number → Number → Bool
  | int i, int j => i == j
  | float x, float y => x.eq y
  | int i, float x | float x, int i => x.toInt64? == some i

def lt : Number → Number → Bool
  | int i, int j => i < j
  | a, b => a.toDouble.lt b.toDouble

def le : Number → Number → Bool
  | int i, int j => i ≤ j
  | a, b => a.toDouble.le b.toDouble

def text : Number → String
  | int i => String.ofList (Text.signedDecimal i.toInt)
  | float x => x.text

end Number
end LuaMachine
