namespace LuaMachine.Integer

def ofInt? (i : Int) : Option Int64 :=
  if Int64.minValue.toInt ≤ i ∧ i ≤ Int64.maxValue.toInt then some (Int64.ofInt i) else none

def withSign (negative : Bool) (n : Nat) : Int := if negative then -n else n

def floorDiv (a b : Int64) : Int64 :=
  -- The only quotient that does not fit 64 bits is one by -1.
  if b = -1 then -a
  else
    let q := a / b
    if a % b ≠ 0 ∧ a ^^^ b < 0 then q - 1 else q

def floorMod (a b : Int64) : Int64 :=
  if b = -1 then 0
  else
    let r := a % b
    if r ≠ 0 ∧ r ^^^ b < 0 then r + b else r

/-- Shifts towards the high end by `n` places, or towards the low end by `-n`; bits that leave
are lost and zeros come in. -/
def shiftLeft (a n : Int64) : Int64 :=
  if n ≤ -64 || n ≥ 64 then 0
  else if 0 ≤ n then (a.toUInt64 <<< n.toUInt64).toInt64
  else (a.toUInt64 >>> (-n).toUInt64).toInt64

def shiftRight (a n : Int64) : Int64 := shiftLeft a (-n)

end LuaMachine.Integer
