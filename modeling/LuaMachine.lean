import LuaMachine.Host
import LuaMachine.Text.Utf8.Lemmas
import LuaMachine.Value.Inspect
import LuaMachine.Value.Hash
import LuaMachine.Proofs.Invariant.Condition
import LuaMachine.Proofs.Invariant.Stable
import LuaMachine.Proofs.Invariant.Operations
import LuaMachine.Proofs.Invariant.Library
import LuaMachine.Proofs.Invariant.Host
import LuaMachine.Proofs.Invariant.Instruction
import LuaMachine.Proofs.Frame.Intact
import LuaMachine.Proofs.Shelter.Stable
import LuaMachine.Proofs.Invariant.Foreign
import LuaMachine.Proofs.Launch
import LuaMachine.Proofs.Resume
import LuaMachine.Proofs.Frame.Cut
import LuaMachine.Proofs.Frame.Values
import LuaMachine.Proofs.Protected
import LuaMachine.Proofs.Loop
import LuaMachine.Proofs.Shelter.Elsewhere
import LuaMachine.Proofs.Shelter.Exposed
import LuaMachine.Proofs.Shelter.Solo
import LuaMachine.Proofs.Shelter.Calls
import LuaMachine.Proofs.Shelter.HostCalls
import LuaMachine.Proofs.Shelter.Natives
import LuaMachine.Proofs.Shelter.Loop
import LuaMachine.Proofs.Double
import LuaMachine.Proofs.Double.Rounding
import LuaMachine.Proofs.Key
import LuaMachine.Proofs.Table.Invariant
import LuaMachine.Proofs.Table.History
import LuaMachine.Proofs.OpenList.Forward
import LuaMachine.Proofs.Upvalue.Captures
import LuaMachine.Proofs.Upvalue.Discipline
import LuaMachine.Proofs.Guarded.Failure
import LuaMachine.Proofs.Guarded.Nesting
import LuaMachine.Proofs.Suspension.Calls
import LuaMachine.Proofs.Suspension.Resume
import LuaMachine.Proofs.Suspension.Return
import LuaMachine.Proofs.Unwinding.Boundary
import LuaMachine.Proofs.Unwinding.HostCall
import LuaMachine.Proofs.Encoding
import LuaMachine.Proofs.OpenList.Protocol
import LuaMachine.Proofs.Limits.Window
import LuaMachine.Proofs.Limits.Depth
import LuaMachine.Proofs.Suspension.Barrier
import LuaMachine.Proofs.Suspension.Discipline
import LuaMachine.Proofs.Suspension.Survival
import LuaMachine.Proofs.Suspension.Handover
import LuaMachine.Proofs.Operator
import LuaMachine.Proofs.Table.Traversal
import LuaMachine.Proofs.Table.Recall
import LuaMachine.Proofs.NumericLoop
import LuaMachine.Proofs.Comparison
import LuaMachine.Proofs.Chain.Index
import LuaMachine.Proofs.Chain.Assign
import LuaMachine.Proofs.Concatenation
import LuaMachine.Proofs.OpenList.Items
import LuaMachine.Proofs.OpenList.Blocks
import LuaMachine.Proofs.Numeral
import LuaMachine.Proofs.Numeral.Grammar
import LuaMachine.Proofs.Numeral.Scale
import LuaMachine.Proofs.Numeral.Agreement
import LuaMachine.Proofs.Numeral.RoundTrip
import LuaMachine.Proofs.RawEquality
import LuaMachine.Proofs.Places
import LuaMachine.Proofs.Rotate
import LuaMachine.Proofs.Clearance
