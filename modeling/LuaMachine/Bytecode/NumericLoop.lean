import LuaMachine.Bytecode.Operand

namespace LuaMachine

namespace NumericLoop

def greatest : Int64 := Int64.maxValue
def least : Int64 := Int64.minValue

/-- The integer limit of a loop, and whether the loop does not run at all; `none` if the limit is
not a number. -/
def integerLimit (limit : Value) (step : Int64) : Option (Int64 × Bool) :=
  match limit.toInt64? with
  | some i => some (i, false)
  | none =>
    limit.toDouble?.map fun x =>
      let x := if step < 0 then x.ceil else x.floor
      if (Double.twoPow 63).le x then (greatest, step < 0)
      else if (Double.twoPow 63).neg.le x then (x.toInt64?.getD 0, false)
      else (least, 0 < step)

structure Control where
  counter : Number
  limit : Number
  step : Number
deriving DecidableEq

def ofIntegers (initial : Int64) (limit : Int64 × Bool) (step : Int64) : Control :=
  let (start, last) :=
    if limit.2 then (0, if step < 0 then greatest else least) else (initial, limit.1)
  { counter := .int (start - step), limit := .int last, step := .int step }

def ofFloats (initial limit step : Value) : Except LoopPart Control :=
  match limit.toDouble?, step.toDouble?, initial.toDouble? with
  | none, _, _ => .error .limit
  | _, none, _ => .error .step
  | _, _, none => .error .initial
  | some limit, some step, some initial =>
    .ok { counter := .float (initial.sub step), limit := .float limit, step := .float step }

def prepare (initial limit step : Value) : Except LoopPart Control :=
  match initial, step with
  | .number (.int i), .number (.int s) =>
    match integerLimit limit s with
    | some l => .ok (ofIntegers i l s)
    | none => ofFloats initial limit step
  | _, _ => ofFloats initial limit step

def advance (counter limit step : Value) : Except LoopPart (Option Number) :=
  match counter, limit, step with
  | .number (.int i), .number (.int l), .number (.int s) =>
    let i := i + s
    .ok (if (if 0 < s then i ≤ l else l ≤ i) then some (.int i) else none)
  | _, _, _ =>
    match counter.toDouble?, limit.toDouble?, step.toDouble? with
    | some i, some l, some s =>
      let i := i.add s
      .ok (if (if (Double.zero false).lt s then i.le l else l.le i) then some (.float i) else none)
    | _, _, _ => .error .step

end NumericLoop

namespace Exec

def prepareLoop (a : Nat) (offset : Int) : Exec Unit := do
  let initial ← register a
  let limit ← register (a + 1)
  let step ← register (a + 2)
  match NumericLoop.prepare initial limit step with
  | .ok control =>
    setRegister a (.number control.counter)
    setRegister (a + 1) (.number control.limit)
    setRegister (a + 2) (.number control.step)
    jump offset
  | .error part => fault (.loopPart part)

def advanceLoop (a : Nat) (offset : Int) : Exec Unit := do
  let counter ← register a
  let limit ← register (a + 1)
  let step ← register (a + 2)
  match NumericLoop.advance counter limit step with
  | .ok (some n) =>
    jump offset
    setRegister a (.number n)
    setRegister (a + 3) (.number n)
  | .ok none => pure ()
  | .error part => fault (.loopPart part)

end Exec
end LuaMachine
