import LuaMachine.Host.StackOperation

namespace LuaMachine

inductive TableOperation where
  | arith (op : Operator)
  | compare (i j : Int) (c : Comparison)
  | length (i : Int)
  | concat (n : Nat)
  | newTable
  | getTable (i : Int)
  | getField (i : Int) (name : String)
  | getIndex (i : Int) (n : Int64)
  | rawGet (i : Int)
  | rawGetIndex (i : Int) (n : Int64)
  | getGlobal (name : String)
  | getMetatable (i : Int)
  | setTable (i : Int)
  | setField (i : Int) (name : String)
  | setIndex (i : Int) (n : Int64)
  | rawSet (i : Int)
  | rawSetIndex (i : Int) (n : Int64)
  | setGlobal (name : String)
  | setMetatable (i : Int)
  | registerScript (name : String) (script : Nat)
  | next (i : Int)
  | traverse (i : Int)
deriving Inhabited

namespace Exec

variable (re : Reentry)

def traverseFrom (i : Int) : Nat → Exec (List (Value × Value))
  | 0 => pure []
  | n + 1 => do
    if ← nextEntry i then
      let v ← pop
      let k ← valueAt (-1)
      return (k, v) :: (← traverseFrom i n)
    else return []

def traverse (i : Int) : Exec (List (Value × Value)) := do
  let i ← absIndex i
  let bound ← match ← valueAt i with
    | .table t => read fun m => (m.table t).keys.length
    | _ => pure 0
  push .nil
  traverseFrom i (bound + 1)

def performTable : TableOperation → Exec Reply
  | .arith op => silent (arithTop re op)
  | .compare i j c => return .truth (← compareAt re i j c)
  | .length i => silent (lengthAt re i)
  | .concat n => silent (concat re n)
  | .newTable => silent do push (.table (← newTable {}))
  | .getTable i => return .ofKind (← getTable re i)
  | .getField i name => return .ofKind (← getField re i (Bytes.ofString name))
  | .getIndex i n => return .ofKind (← getIndex re i n)
  | .rawGet i => return .ofKind (← rawGet i)
  | .rawGetIndex i n => return .ofKind (← rawGetIndex i n)
  | .getGlobal name => return .ofKind (← getGlobal re (Bytes.ofString name))
  | .getMetatable i => return .truth (← getMetatable i)
  | .setTable i => silent (setTable re i)
  | .setField i name => silent (setField re i (Bytes.ofString name))
  | .setIndex i n => silent (setIndex re i n)
  | .rawSet i => silent (rawSet i)
  | .rawSetIndex i n => silent (rawSetIndex i n)
  | .setGlobal name => silent (setGlobal re (Bytes.ofString name))
  | .setMetatable i => silent (setMetatable i)
  | .registerScript name n => silent (registerNative re (Bytes.ofString name) (.script n))
  | .next i => return .truth (← nextEntry i)
  | .traverse i => return .pairs (← traverse i)

end Exec
end LuaMachine
