namespace LuaMachine

abbrev Bytes := List UInt8

def Bytes.ofString (s : String) : Bytes := s.toList.flatMap String.utf8EncodeChar

namespace Utf8

/-- A scalar value whose first bytes have been read: the bits so far, how many bytes are still
missing, and the range in which the next of them has to lie. -/
structure Pending where
  bits : Nat
  missing : Nat
  low : UInt8 := 0x80
  high : UInt8 := 0xBF

/-- Reads the first byte of a sequence. The ranges leave out overlong forms, surrogates and
values above U+10FFFF. -/
def start (b : UInt8) : List (Option Char) × Option Pending :=
  let n := b.toNat
  if n < 0x80 then ([some (Char.ofNat n)], none)
  else if n < 0xC2 then ([none], none)
  else if n < 0xE0 then ([], some { bits := n % 32, missing := 1 })
  else if n < 0xF0 then
    ([], some {
      bits := n % 16
      missing := 2
      low := if n = 0xE0 then 0xA0 else 0x80
      high := if n = 0xED then 0x9F else 0xBF })
  else if n < 0xF5 then
    ([], some {
      bits := n % 8
      missing := 3
      low := if n = 0xF0 then 0x90 else 0x80
      high := if n = 0xF4 then 0x8F else 0xBF })
  else ([none], none)

def advance : Option Pending → UInt8 → List (Option Char) × Option Pending
  | none, b => start b
  | some p, b =>
    if p.low ≤ b ∧ b ≤ p.high then
      let bits := p.bits * 64 + b.toNat % 64
      if p.missing ≤ 1 then ([some (Char.ofNat bits)], none)
      else ([], some { bits, missing := p.missing - 1 })
    else
      let (out, next) := start b
      (none :: out, next)

def scalarsFrom : Option Pending → Bytes → List (Option Char)
  | none, [] => []
  | some _, [] => [none]
  | p, b :: bs =>
    let (out, next) := advance p b
    out ++ scalarsFrom next bs

/-- The scalar values of a byte string, with `none` for each ill-formed part. -/
def scalars (s : Bytes) : List (Option Char) := scalarsFrom none s

def decode? (s : Bytes) : Option (List Char) := (scalars s).mapM id

def lossy (s : Bytes) : String := String.ofList ((scalars s).map (·.getD '\uFFFD'))

end Utf8
end LuaMachine
