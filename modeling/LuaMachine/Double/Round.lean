import LuaMachine.Double

namespace LuaMachine.Double

def shiftHalfEven (n s : Nat) : Nat :=
  if n.log2 + 1 < s then 0
  else
    let q := n >>> s
    let rest := n - (q <<< s)
    let half := (1 <<< s) / 2
    if half < rest ∨ (rest = half ∧ 0 < s ∧ q % 2 = 1) then q + 1 else q

/-- The magnitude bits of the number nearest to `n * 2 ^ e`. The kept quotient has 53 bits, or
fewer at the smallest exponent; a carry out of it runs into the exponent field. -/
def roundMagnitude (n : Nat) (e : Int) : Nat :=
  if n = 0 then 0
  else
    let shift : Int := max ((n.log2 : Int) - 52) (-1074 - e)
    let q := if shift ≤ 0 then n <<< (-shift).toNat else shiftHalfEven n shift.toNat
    let field := (e + shift + 1074).toNat
    if 4096 < field then infinityBits else q + field <<< 52

def round (negative : Bool) (n : Nat) (e : Int) : Double :=
  ofMagnitude negative (roundMagnitude n e)

/-- The number nearest to `n / d * 2 ^ e`. The quotient is taken to more than 64 bits, and a
last bit tells whether anything was cut off. -/
def roundQuotient (negative : Bool) (n d : Nat) (e : Int) : Double :=
  let extra := d.log2 + 66
  let scaled := n <<< extra
  let q := scaled / d
  let sticky := if scaled % d = 0 then 0 else 1
  round negative (2 * q + sticky) (e - extra - 1)

def ofInt (i : Int) : Double := round (i < 0) i.natAbs 0

def ofInt64 (i : Int64) : Double := ofInt i.toInt

/-- `2 ^ n`; below the normal numbers this is the reciprocal of an overflow, that is zero, once
`2 ^ (-n)` is out of range. -/
def twoPow (n : Int) : Double :=
  if 1024 ≤ n then infinity false
  else if n ≤ -1024 then zero false
  else round false 1 n

end LuaMachine.Double
