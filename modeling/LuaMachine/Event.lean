import LuaMachine.Text.Utf8

namespace LuaMachine

inductive Event where
  | index
  | newIndex
  | len
  | eq
  | add
  | sub
  | mul
  | mod
  | pow
  | div
  | idiv
  | band
  | bor
  | bxor
  | shl
  | shr
  | unm
  | bnot
  | lt
  | le
  | concat
  | call
  | tostring
  | name
  | pairs
  | metatable
deriving DecidableEq, Inhabited

namespace Event

def field : Event → String
  | index => "__index"
  | newIndex => "__newindex"
  | len => "__len"
  | eq => "__eq"
  | add => "__add"
  | sub => "__sub"
  | mul => "__mul"
  | mod => "__mod"
  | pow => "__pow"
  | div => "__div"
  | idiv => "__idiv"
  | band => "__band"
  | bor => "__bor"
  | bxor => "__bxor"
  | shl => "__shl"
  | shr => "__shr"
  | unm => "__unm"
  | bnot => "__bnot"
  | lt => "__lt"
  | le => "__le"
  | concat => "__concat"
  | call => "__call"
  | tostring => "__tostring"
  | name => "__name"
  | pairs => "__pairs"
  | metatable => "__metatable"

def key (e : Event) : Bytes := Bytes.ofString e.field

end Event
end LuaMachine
