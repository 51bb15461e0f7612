import LuaMachine.Double.Round

namespace LuaMachine.Double

/-- The operand that decides the result because it is not a number. -/
def nanOperand? (x y : Double) : Option Double :=
  if x.isNaN then some x else if y.isNaN then some y else none

def aligned (x y : Double) : Nat × Nat × Int :=
  let e := min x.exponent y.exponent
  (x.significand <<< (x.exponent - e).toNat, y.significand <<< (y.exponent - e).toNat, e)

def add (x y : Double) : Double :=
  match nanOperand? x y with
  | some nan => nan
  | none =>
    if x.isInfinite then
      if y.isInfinite && x.negative != y.negative then undefined else x
    else if y.isInfinite then y
    else
      let (m, n, e) := aligned x y
      let sum := Integer.withSign x.negative m + Integer.withSign y.negative n
      if sum = 0 then zero (x.negative && y.negative) else round (sum < 0) sum.natAbs e

def sub (x y : Double) : Double :=
  match nanOperand? x y with
  | some nan => nan
  | none => add x y.neg

def mul (x y : Double) : Double :=
  let negative := x.negative != y.negative
  match nanOperand? x y with
  | some nan => nan
  | none =>
    if x.isInfinite || y.isInfinite then
      if x.isZero || y.isZero then undefined else infinity negative
    else round negative (x.significand * y.significand) (x.exponent + y.exponent)

def div (x y : Double) : Double :=
  let negative := x.negative != y.negative
  match nanOperand? x y with
  | some nan => nan
  | none =>
    if x.isInfinite then if y.isInfinite then undefined else infinity negative
    else if y.isInfinite then zero negative
    else if y.isZero then if x.isZero then undefined else infinity negative
    else roundQuotient negative x.significand y.significand (x.exponent - y.exponent)

/-- What is left of `x` after taking away `y` as often as it fits, with the sign of `x`. -/
def rem (x y : Double) : Double :=
  match nanOperand? x y with
  | some nan => nan
  | none =>
    if x.isInfinite || y.isZero then undefined
    else if y.isInfinite then x
    else
      let (m, n, e) := aligned x y
      round x.negative (m % n) e

/-- The remainder of the division rounded down: it has the sign of the divisor. -/
def floorMod (x y : Double) : Double :=
  if y.isInfinite && x.isFinite then
    if le (zero false) x == lt (zero false) y then x else y
  else
    let m := rem x y
    let nonzero := !m.isZero
    if nonzero && lt m (zero false) != lt y (zero false) then add m y else m

/-- An integer as a number, with the given sign where it is zero. -/
def ofIntSigned (negative : Bool) (i : Int) : Double :=
  if i = 0 then zero negative else ofInt i

def floor (x : Double) : Double :=
  if !x.isFinite || 0 ≤ x.exponent then x else ofIntSigned x.negative x.floorInt

def ceil (x : Double) : Double := (floor x.neg).neg

/-- Powers are those of the platform's mathematical library. -/
def pow (x y : Double) : Double :=
  let p := Float.pow (Float.ofBits x.bits) (Float.ofBits y.bits)
  if p.isNaN then (nanOperand? x y).getD undefined else ⟨p.toBits⟩

end LuaMachine.Double
