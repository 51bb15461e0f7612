import LuaMachine.Opcode
import LuaMachine.Operator
import LuaMachine.Table

namespace LuaMachine

inductive FaultKind where
  | type
  | arithmetic
  | index
  | comparison
  | stackOverflow
  | invalidKey
deriving DecidableEq, Inhabited

inductive LoopPart where
  | limit
  | step
  | initial
deriving DecidableEq

inductive Fault where
  | notIndexable (kind : Kind)
  | notCallable (kind : Kind)
  | noLength (kind : Kind)
  | notConcatenable (kind : Kind)
  | notArithmetic (kind : Kind)
  | notBitwise (kind : Kind)
  | noInteger
  | zeroDivisor (division : ZeroDivisor)
  | unordered (left right : Kind)
  | indexChain
  | newIndexChain
  | noUpvalue (index : Nat)
  | noPrototype (index : Nat)
  | frameOverflow
  | hostOverflow
  | badKey (fault : KeyFault)
  | noOpcode (number : Nat)
  | strayExtraArg
  | missingExtraArg (op : Opcode)
  | loopPart (part : LoopPart)
  | tableExpected (kind : Kind)
  | tostringResult
  | lengthResult
  | reported (kind : FaultKind) (text : String)
deriving DecidableEq

namespace Fault

def kind : Fault → FaultKind
  | notIndexable _ | notCallable _ | noLength _ | notConcatenable _ | noOpcode _
  | strayExtraArg | missingExtraArg _ | loopPart _ | tableExpected _ | tostringResult
  | lengthResult => .type
  | notArithmetic _ | notBitwise _ | noInteger | zeroDivisor _ => .arithmetic
  | unordered _ _ => .comparison
  | indexChain | newIndexChain | noUpvalue _ | noPrototype _ => .index
  | frameOverflow | hostOverflow => .stackOverflow
  | badKey _ => .invalidKey
  | reported kind _ => kind

def message : Fault → String
  | notIndexable kind => s!"attempt to index a {kind.name} value"
  | notCallable kind => s!"attempt to call a {kind.name} value"
  | noLength kind => s!"attempt to get length of a {kind.name} value"
  | notConcatenable kind => s!"attempt to concatenate a {kind.name} value"
  | notArithmetic kind => s!"attempt to perform arithmetic on a {kind.name} value"
  | notBitwise kind => s!"attempt to perform bitwise operation on a {kind.name} value"
  | noInteger => "number has no integer representation"
  | zeroDivisor .quotient => "attempt to perform 'n//0'"
  | zeroDivisor .remainder => "attempt to perform 'n%0'"
  | unordered left right =>
    if left = right then s!"attempt to compare two {left.name} values"
    else s!"attempt to compare {left.name} with {right.name}"
  | indexChain => "'__index' chain too long; possible loop"
  | newIndexChain => "'__newindex' chain too long; possible loop"
  | noUpvalue index => s!"invalid upvalue index {index}"
  | noPrototype index => s!"invalid prototype index {index}"
  | frameOverflow => "stack overflow"
  | hostOverflow => "C stack overflow"
  | badKey .nil => "table index is nil"
  | badKey .nan => "table index is NaN"
  | noOpcode number => s!"invalid opcode {number}"
  | strayExtraArg => "unexpected EXTRAARG"
  | missingExtraArg op => s!"{op.name} without EXTRAARG"
  | loopPart .limit => "'for' limit must be a number"
  | loopPart .step => "'for' step must be a number"
  | loopPart .initial => "'for' initial value must be a number"
  | tableExpected kind => s!"table expected, got {kind.name}"
  | tostringResult => "'__tostring' must return a string"
  | lengthResult => "object length is not an integer"
  | reported _ text => text

end Fault
end LuaMachine
