import LuaMachine.Value

namespace LuaMachine

inductive HashWrite where
  | byte (b : UInt8)
  | word (w : UInt64)
  | bytes (s : Bytes)
deriving DecidableEq

namespace Value

def normalized : Value → Value
  | number (.float x) =>
    match x.toInt64? with
    | some i => int i
    | none => float x
  | v => v

/-- What a value feeds to a hasher. A string goes after its length, and an object of the heap is known
by its address, after a word that says that there is one. -/
def hashWrites : Value → List HashWrite
  | nil => [.byte 0]
  | bool b => [.byte (if b then 1 else 0)]
  | number (.int i) => [.word i.toUInt64]
  | number (.float x) =>
    match x.toInt64? with
    | some i => [.word i.toUInt64]
    | none => [.word x.bits]
  | string s => [.word (UInt64.ofNat s.length), .bytes s]
  | v =>
    match v.address? with
    | some a => [.word 1, .word (UInt64.ofNat a)]
    | none => [.word 0]

end Value
end LuaMachine
