import LuaMachine.Error
import LuaMachine.Upvalue

namespace LuaMachine

/-- Where the results of a frame go when it is done. -/
inductive CallSite where
  | host
  | call (a c : Nat)
  | iterator (a c : Nat)
  | metamethod
  | guarded
deriving DecidableEq, Inhabited

/-- Marks the frame of a protected call whose callee is running. -/
structure Guard where
  handler : Option Value
deriving DecidableEq, Inhabited

structure Frame where
  window : Window := #[]
  top : Nat := 0
  function : Option FunctionId := none
  varargs : List Value := []
  pc : Nat := 0
  captured : List (Nat × UpvalueId) := []
  site : CallSite := .host
  /-- How many results the caller wants; all of them if negative. -/
  wanted : Int := 0
  guard : Option Guard := none
  /-- The left operand of the pair that a concatenation is at. -/
  concatAt : Nat := 0
  /-- Set while `a <= b` is being answered as `not (b < a)`. -/
  negated : Bool := false
deriving DecidableEq, Inhabited

/-- As many values as are wanted, filled up with nil; all of them if the number is negative. -/
def adjust (values : List Value) (wanted : Int) : List Value :=
  if wanted < 0 then values
  else
    let n := wanted.toNat
    values.take n ++ List.replicate (n - values.length) .nil

theorem length_adjust (vs : List Value) (n : Nat) : (adjust vs n).length = n := by
  rw [adjust, if_neg (by omega)]
  simp
  omega

theorem adjust_all (vs : List Value) (wanted : Int) (h : wanted < 0) : adjust vs wanted = vs := by
  simp [adjust, h]

@[specialize]
def modifyFrames (level : Nat) (f : Frame → Frame) (frames : Array Frame) : Array Frame :=
  frames.modify level f

namespace Frame

def slot (f : Frame) (i : Nat) : Value := f.window.read i

def setSlot (f : Frame) (i : Nat) (v : Value) : Frame :=
  { f with window := f.window.write i v }

def push (f : Frame) (v : Value) : Frame :=
  { f with window := f.window.write f.top v, top := f.top + 1 }

def pushAll (f : Frame) (vs : List Value) : Frame :=
  { f with window := f.window.writeAll f.top vs, top := f.top + vs.length }

/-- Moves the top; slots that are given up become nil. -/
def setTop (f : Frame) (top : Nat) : Frame :=
  { f with window := f.window.clear top (f.top - top), top }

def peek (f : Frame) : Value := if f.top = 0 then .nil else f.slot (f.top - 1)

def drop (f : Frame) (n : Nat) : Frame := f.setTop (f.top - n)

def topValues (f : Frame) (n : Nat) : List Value :=
  let n := min n f.top
  f.window.slice (f.top - n) n

def values (f : Frame) : List Value := f.window.slice 0 f.top

def reverse (f : Frame) (first last : Nat) : Frame :=
  if first < last then
    { f with window := f.window.writeAll first (f.window.slice first (last + 1 - first)).reverse }
  else f

/-- Turns the slots from `start` to the top by `n` places, towards the top if `n` is positive. The
part that goes up and the one that goes down are turned around, and then both of them together. -/
def rotate (f : Frame) (start : Nat) (n : Int) : Frame :=
  if start < f.top then
    let last := f.top - 1
    let k := n.tmod (f.top - start : Nat)
    if k = 0 then f
    else
      let split := (if 0 ≤ k then (last : Int) - k else start - k - 1).toNat
      ((f.reverse start split).reverse (split + 1) last).reverse start last
  else f

theorem exists_reverse_eq (f : Frame) (first last : Nat) :
    ∃ w, f.reverse first last = { f with window := w } := by
  unfold reverse
  split
  · exact ⟨_, rfl⟩
  · exact ⟨f.window, rfl⟩

theorem exists_rotate_eq (f : Frame) (start : Nat) (n : Int) :
    ∃ w, f.rotate start n = { f with window := w } := by
  unfold rotate
  split
  · dsimp only
    split
    · exact ⟨f.window, rfl⟩
    · generalize Int.toNat _ = split
      obtain ⟨w₁, h₁⟩ := f.exists_reverse_eq start split
      obtain ⟨w₂, h₂⟩ := (f.reverse start split).exists_reverse_eq (split + 1) (f.top - 1)
      obtain ⟨w₃, h₃⟩ := ((f.reverse start split).reverse (split + 1)
        (f.top - 1)).exists_reverse_eq start (f.top - 1)
      exact ⟨w₃, by rw [h₃, h₂, h₁]⟩
  · exact ⟨f.window, rfl⟩

theorem getElem?_values (f : Frame) (i : Nat) :
    f.values[i]? = if i < f.top then some (f.slot i) else none := by
  rw [values, Window.getElem?_slice, Nat.zero_add]
  rfl

theorem length_values (f : Frame) : f.values.length = f.top := Window.length_slice ..

theorem values_pushAll (f : Frame) (vs : List Value) :
    (f.pushAll vs).values = f.values ++ vs := by
  apply List.ext_getElem?
  intro i
  simp only [List.getElem?_append, getElem?_values, length_values]
  simp only [pushAll, slot, Window.read_writeAll]
  by_cases h : i < f.top
  · simp [h, show i < f.top + vs.length by omega, show ¬(f.top ≤ i) by omega]
  · by_cases hi : i < f.top + vs.length
    · have : i - f.top < vs.length := by omega
      simp [h, hi, this, show f.top ≤ i by omega]
    · simp [h, hi, List.getElem?_eq_none (show vs.length ≤ i - f.top by omega)]

theorem values_setTop (f : Frame) (n : Nat) (h : n ≤ f.top) :
    (f.setTop n).values = f.values.take n := by
  apply List.ext_getElem?
  intro i
  simp only [List.getElem?_take, getElem?_values]
  simp only [setTop, slot, Window.read_clear]
  by_cases hi : i < n
  · simp [hi, show i < f.top by omega, show ¬(n ≤ i) by omega]
  · simp [hi]

end Frame
end LuaMachine
