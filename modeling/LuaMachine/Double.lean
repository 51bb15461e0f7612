import LuaMachine.Integer

namespace LuaMachine

structure Double where
  bits : UInt64
deriving DecidableEq, Inhabited

namespace Double

def signBit : UInt64 := 0x8000000000000000
def infinityBits : Nat := 0x7FF0000000000000

def negative (x : Double) : Bool := x.bits &&& signBit != 0
def magnitude (x : Double) : Nat := (x.bits &&& 0x7FFFFFFFFFFFFFFF).toNat

def isNaN (x : Double) : Bool := infinityBits < x.magnitude
def isInfinite (x : Double) : Bool := x.magnitude == infinityBits
def isFinite (x : Double) : Bool := x.magnitude < infinityBits
def isZero (x : Double) : Bool := x.magnitude == 0

/-- The number with the given sign and magnitude bits; magnitudes past infinity stop there. -/
def ofMagnitude (negative : Bool) (magnitude : Nat) : Double :=
  let m := UInt64.ofNat (min magnitude infinityBits)
  ⟨if negative then m ||| signBit else m⟩

def zero (negative : Bool) : Double := ofMagnitude negative 0
def infinity (negative : Bool) : Double := ofMagnitude negative infinityBits

/-- The answer of an operation that has none, such as zero divided by zero: a quiet NaN with
its sign bit set. -/
def undefined : Double := ⟨0xFFF8000000000000⟩

def neg (x : Double) : Double := ⟨x.bits ^^^ signBit⟩

/-- The leading bit of a significand, which is not stored. -/
def hiddenBit : Nat := 0x10000000000000

/-- A finite number is `significand * 2 ^ exponent` up to its sign. -/
def significand (x : Double) : Nat :=
  let m := x.magnitude
  if m < hiddenBit then m else m % hiddenBit + hiddenBit

def exponent (x : Double) : Int :=
  let field : Nat := x.magnitude / hiddenBit
  if field = 0 then -1074 else field - 1075

def signedSignificand (x : Double) : Int :=
  if x.negative then -x.significand else x.significand

/-- Orders the numbers that are not NaN; both zeros have rank 0. -/
def rank (x : Double) : Int :=
  if x.negative then -(x.magnitude : Int) else x.magnitude

def eq (x y : Double) : Bool := !x.isNaN && !y.isNaN && x.rank == y.rank
def lt (x y : Double) : Bool := !x.isNaN && !y.isNaN && x.rank < y.rank
def le (x y : Double) : Bool := !x.isNaN && !y.isNaN && x.rank ≤ y.rank

def floorInt (x : Double) : Int :=
  let e := x.exponent
  if 0 ≤ e then x.signedSignificand * (1 <<< e.toNat : Nat)
  else x.signedSignificand >>> (-e).toNat

def toInt? (x : Double) : Option Int :=
  if x.isFinite && x.significand % (1 <<< (-x.exponent).toNat) == 0 then some x.floorInt else none

def toInt64? (x : Double) : Option Int64 := x.toInt?.bind Integer.ofInt?

end Double
end LuaMachine
