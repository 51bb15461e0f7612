import LuaMachine.Number
import LuaMachine.Text.Blank
import LuaMachine.Text.Digits
import LuaMachine.Text.Utf8

namespace LuaMachine.Numeral

open Text

def splitSign : List Char → Bool × List Char
  | '-' :: rest => (true, rest)
  | '+' :: rest => (false, rest)
  | text => (false, text)

def signedDecimal? (text : List Char) : Option Int :=
  let (negative, digits) := splitSign text
  if digits.isEmpty || !digits.all Char.isDigit then none
  else some (Integer.withSign negative (decimalValue digits))

/-- The mantissa of a decimal: its digits as one number and how many of them follow the point. -/
def mantissa? (text : List Char) : Option (Nat × Nat) :=
  let whole := text.takeWhile Char.isDigit
  let fraction? :=
    match text.dropWhile Char.isDigit with
    | [] => some []
    | '.' :: fraction => if fraction.all Char.isDigit then some fraction else none
    | _ => none
  match fraction? with
  | none => none
  | some fraction =>
    let digits := whole ++ fraction
    if digits.isEmpty then none else some (decimalValue digits, fraction.length)

def decimal? (negative : Bool) (text : List Char) : Option Double :=
  let isMark (c : Char) := c = 'e' || c = 'E'
  let exponent? :=
    match text.dropWhile (!isMark ·) with
    | [] => some 0
    | _ :: exponent => signedDecimal? exponent
  match mantissa? (text.takeWhile (!isMark ·)), exponent? with
  | some (digits, places), some exponent =>
    some (Double.ofDecimal negative digits (exponent - places))
  | _, _ => none

def readDecimal (negative : Bool) (text : List Char) : Option Number :=
  let asFloat := (decimal? negative text).map Number.float
  if !text.isEmpty && text.all Char.isDigit then
    match Integer.ofInt? (Integer.withSign negative (decimalValue text)) with
    | some i => some (.int i)
    | none => asFloat
  else asFloat

/-- The digits before the exponent of a hexadecimal float, as far as they have been read. -/
structure HexMantissa where
  value : Double := .zero false
  scale : Int32 := 0
  seenPoint : Bool := false
  seenDigit : Bool := false

/-- Takes in one character; the value is rounded at every digit. -/
def HexMantissa.push (m : HexMantissa) (c : Char) : Option HexMantissa :=
  if c = '.' then
    if m.seenPoint then none else some { m with seenPoint := true }
  else
    (digit? 16 c).map fun d =>
      { m with
        value := (m.value.mul (.ofInt 16)).add (.ofInt d)
        scale := if m.seenPoint then m.scale - 4 else m.scale
        seenDigit := true }

/-- The exponent of a hexadecimal float has to fit 32 bits. -/
def hexExponent? : List Char → Option Int32
  | [] => some 0
  | _ :: text =>
    match signedDecimal? text with
    | some e =>
      if Int32.minValue.toInt ≤ e ∧ e ≤ Int32.maxValue.toInt then some (Int32.ofInt e) else none
    | none => none

def isHexMark (c : Char) : Bool := c = 'p' || c = 'P'

def hexFloat? (text : List Char) : Option Double :=
  match (text.takeWhile (!isHexMark ·)).foldlM HexMantissa.push {},
      hexExponent? (text.dropWhile (!isHexMark ·)) with
  | some m, some e =>
    if m.seenDigit then some (m.value.mul (Double.twoPow (e + m.scale).toInt)) else none
  | _, _ => none

def hexInteger? (text : List Char) : Option Int64 :=
  (text.mapM (digit? 16)).map fun digits =>
    (digits.foldl (fun n d => n * 16 + UInt64.ofNat d) (0 : UInt64)).toInt64

def readHex (negative : Bool) (text : List Char) : Option Number :=
  if text.isEmpty then none
  else if text.any fun c => c = '.' || isHexMark c then
    (hexFloat? text).map fun x => .float (if negative then x.neg else x)
  else
    (hexInteger? text).map fun i => .int (if negative then -i else i)

def isHexPrefixed : List Char → Bool
  | '0' :: c :: _ => c = 'x' || c = 'X'
  | _ => false

/-- The number that a text denotes, white space around it aside. -/
def read (s : Bytes) : Option Number :=
  match Utf8.decode? s with
  | none => none
  | some text =>
    let (negative, body) := splitSign (trim isWhiteSpace text)
    if isHexPrefixed body then readHex negative (body.drop 2) else readDecimal negative body

def readBase (base : Nat) (s : Bytes) : Option Int64 :=
  let text := (trim isAsciiBlank s).map fun b => Char.ofNat b.toNat
  let (negative, body) := splitSign text
  if body.isEmpty then none
  else
    (body.mapM (digit? base)).map fun digits =>
      let n := digits.foldl (fun n d => n * Int64.ofNat base + Int64.ofNat d) (0 : Int64)
      if negative then -n else n

end LuaMachine.Numeral
