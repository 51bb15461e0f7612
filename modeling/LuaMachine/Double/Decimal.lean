import LuaMachine.Double.Round
import LuaMachine.Text.Digits

namespace LuaMachine.Double

def tenPow (k : Nat) : Nat := Nat.pow 10 k

def divHalfEven (n d : Nat) : Nat :=
  let q := n / d
  let rest := n % d
  if d < 2 * rest ∨ (2 * rest = d ∧ q % 2 = 1) then q + 1 else q

/-- The exponent of the leading decimal digit of `n / d`, for positive `n` and `d`. -/
def decimalExponent (n d : Nat) : Int :=
  if d ≤ n then (Text.decimal (n / d)).length - 1
  else
    let k := (Text.decimal (d / n)).length
    if d ≤ n * tenPow (k - 1) then 1 - (k : Int) else -k

def scaleHalfEven (n d : Nat) (e : Int) : Nat :=
  if 0 ≤ e then divHalfEven (n * tenPow e.toNat) d else divHalfEven n (d * tenPow (-e).toNat)

def precision : Nat := 14

/-- The rounded digits of `n / d`, a number of exactly `precision` digits, and the exponent of
the first of them. -/
def significantDigits (n d : Nat) : Nat × Int :=
  let e := decimalExponent n d
  let digits := scaleHalfEven n d (precision - 1 - e)
  if digits = tenPow precision then (tenPow (precision - 1), e + 1) else (digits, e)

def stripZeros (fraction : List Char) : List Char :=
  (fraction.reverse.dropWhile (· = '0')).reverse

def withPoint (whole fraction : List Char) : List Char :=
  match stripZeros fraction with
  | [] => whole
  | fraction => whole ++ '.' :: fraction

def scientific (digits : List Char) (e : Int) : List Char :=
  let exponent := Text.decimal e.natAbs
  let padded := if exponent.length < 2 then '0' :: exponent else exponent
  withPoint (digits.take 1) (digits.drop 1) ++ 'e' :: (if e < 0 then '-' else '+') :: padded

def positional (digits : List Char) (e : Int) : List Char :=
  if 0 ≤ e then withPoint (digits.take (e.toNat + 1)) (digits.drop (e.toNat + 1))
  else withPoint ['0'] (List.replicate ((-e).toNat - 1) '0' ++ digits)

/-- Positional from `0.0001` up to fourteen places before the point, scientific elsewhere. -/
def magnitudeText (x : Double) : List Char :=
  if x.isZero then ['0']
  else
    let e := x.exponent
    let (n, d) :=
      if 0 ≤ e then (x.significand <<< e.toNat, 1) else (x.significand, 1 <<< (-e).toNat)
    let (digits, e) := significantDigits n d
    let digits := Text.decimal digits
    if e < -4 ∨ (precision : Int) ≤ e then scientific digits e else positional digits e

/-- The text of a number. A finite one that would read as an integer gets a fraction. -/
def text (x : Double) : String :=
  let body :=
    if x.isNaN then ['n', 'a', 'n']
    else if x.isInfinite then ['i', 'n', 'f']
    else
      let digits := magnitudeText x
      if digits.all Char.isDigit then digits ++ ['.', '0'] else digits
  String.ofList (if x.negative then '-' :: body else body)

/-- The number nearest to `m * 10 ^ e`. Decimals far outside the range are settled before any
power is computed. -/
def ofDecimal (negative : Bool) (m : Nat) (e : Int) : Double :=
  if m = 0 then zero negative
  else
    let lead := e + (Text.decimal m).length
    if 400 < lead then infinity negative
    else if lead < -400 then zero negative
    else if 0 ≤ e then round negative (m * tenPow e.toNat) 0
    else roundQuotient negative m (tenPow (-e).toNat) 0

end LuaMachine.Double
