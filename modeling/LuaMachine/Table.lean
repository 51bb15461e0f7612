import LuaMachine.Value.Key

/-!
Tables: a sequence part for the integer keys from 1 on and an association list for all other
keys. A key one past the sequence is never in the list, so the length of the sequence is a border,
and storing there pulls in whatever continues the sequence.

Traversal follows an order that is fixed when it starts. Keys that have been cleared since are
skipped; keys that the order does not know are refused.
-/

namespace LuaMachine

/-- Association lists without repeated keys, in the order in which the keys came in. -/
abbrev Entries := List (Key × Value)

namespace Entries

def find? (k : Key) : Entries → Option Value
  | [] => none
  | (j, v) :: rest => if j = k then some v else find? k rest

def insert (k : Key) (v : Value) : Entries → Entries
  | [] => [(k, v)]
  | (j, w) :: rest => if j = k then (k, v) :: rest else (j, w) :: insert k v rest

def erase (k : Key) : Entries → Entries
  | [] => []
  | (j, w) :: rest => if j = k then rest else (j, w) :: erase k rest

theorem find?_insert (k l : Key) (v : Value) (es : Entries) :
    (es.insert k v).find? l = if k = l then some v else es.find? l := by
  induction es with
  | nil => rfl
  | cons e es ih =>
    obtain ⟨j, w⟩ := e
    by_cases hj : j = k
    · subst hj
      by_cases hl : j = l <;> simp [insert, find?, hl]
    · by_cases hl : j = l
      · subst hl
        simp [insert, find?, hj, Ne.symm hj]
      · simp [insert, find?, hj, hl, ih]

theorem find?_erase_of_ne (k l : Key) (es : Entries) (h : k ≠ l) :
    (es.erase k).find? l = es.find? l := by
  induction es with
  | nil => rfl
  | cons e es ih =>
    obtain ⟨j, w⟩ := e
    by_cases hj : j = k
    · subst hj; simp [erase, find?, h]
    · simp [erase, find?, hj, ih]

end Entries

structure Table where
  items : Array Value := #[]
  entries : Entries := []
  metatable : Option TableId := none
  /-- The keys of the traversal in progress, in order. -/
  order : Option (List Key) := none
  /-- Whether a key has come or gone since the order was fixed. -/
  changed : Bool := false
deriving DecidableEq, Inhabited

inductive KeyFault where
  | nil
  | nan
deriving DecidableEq

inductive Successor where
  | key (k : Key)
  | finished
  | unknown
deriving DecidableEq

namespace Table

/-- The length of the sequence part, a border of the table. -/
def length (t : Table) : Nat := t.items.size

def getEntry (t : Table) (k : Key) : Value := (t.entries.find? k).getD .nil

def getKey (t : Table) (k : Key) : Value :=
  match k with
  | .int i =>
    let n := i.toInt
    if 1 ≤ n ∧ n ≤ t.items.size then t.items.getD (n.toNat - 1) .nil else t.getEntry k
  | _ => t.getEntry k

def getInt (t : Table) (i : Int64) : Value := t.getKey (.int i)

def getString (t : Table) (s : Bytes) : Value := t.getKey (.string s)

/-- The value under a key; nil where there is none, and for nil and NaN. -/
def get (t : Table) (k : Value) : Value :=
  match Key.ofValue? k with
  | some k => t.getKey k
  | none => .nil

def trim (items : Array Value) : Array Value :=
  items.popWhile Value.isNil

def greatestIndex : Nat := 0x7FFFFFFFFFFFFFFF

def continuation? (n : Nat) (entries : Entries) : Option (Key × Value) :=
  if n < greatestIndex then
    let next := Key.int (Int64.ofNat (n + 1))
    (entries.find? next).map fun v => (next, v)
  else none

def pull : Nat → Array Value → Entries → Array Value × Entries
  | 0, items, entries => (items, entries)
  | n + 1, items, entries =>
    match continuation? items.size entries with
    | some (k, v) => pull n (items.push v) (entries.erase k)
    | none => (items, entries)

/-- Overwrites a position of the sequence; clearing the last one trims it. -/
def putItem (t : Table) (i : Nat) (v : Value) : Table :=
  let changed := t.changed || (t.items.getD i .nil).isNil != v.isNil
  let last := i + 1 == t.items.size && v.isNil
  let items := t.items.setIfInBounds i v
  { t with items := if last then trim items else items, changed }

def append (t : Table) (k : Key) (v : Value) : Table :=
  let held := (t.entries.find? k).isSome
  let entries := if held then t.entries.erase k else t.entries
  if v.isNil then { t with entries, changed := t.changed || held }
  else
    let (items, entries) := pull entries.length (t.items.push v) entries
    { t with items, entries, changed := true }

def putEntry (t : Table) (k : Key) (v : Value) : Table :=
  let changed := t.changed || (t.entries.find? k).isSome == v.isNil
  { t with entries := if v.isNil then t.entries.erase k else t.entries.insert k v, changed }

def putKey (t : Table) (k : Key) (v : Value) : Table :=
  match k with
  | .int i =>
    let n := i.toInt
    if 1 ≤ n ∧ n ≤ t.items.size then t.putItem (n.toNat - 1) v
    else if n = t.items.size + 1 then t.append k v
    else t.putEntry k v
  | _ => t.putEntry k v

def putInt (t : Table) (i : Int64) (v : Value) : Table := t.putKey (.int i) v

/-- Stores a value under a key; a nil value removes the key. -/
def put (t : Table) (k v : Value) : Except KeyFault Table :=
  match Key.ofValue? k with
  | some k => .ok (t.putKey k v)
  | none => .error (if k.isNil then .nil else .nan)

def keys (t : Table) : List Key :=
  let sequence := t.items.toList.zipIdx.filterMap fun (v, i) =>
    if v.isNil then none else some (Key.int (Int64.ofNat (i + 1)))
  sequence ++ t.entries.map Prod.fst

def toList (t : Table) : List (Key × Value) :=
  t.keys.map fun k => (k, t.getKey k)

def after? (k : Key) : List Key → Option (List Key)
  | [] => none
  | j :: rest => if j = k then some rest else after? k rest

def firstAlive (t : Table) (ks : List Key) : Successor :=
  match ks.find? fun k => !(t.getKey k).isNil with
  | some k => .key k
  | none => .finished

/-- Fixes a new order if there is none, or if a traversal starts after a change. -/
def refresh (t : Table) (starting : Bool) : Table :=
  if t.order.isNone || (starting && t.changed) then
    { t with order := some t.keys, changed := false }
  else t

/-- The key that follows `k` in the traversal; nil starts it. -/
def next (t : Table) (k : Value) : Table × Successor :=
  let t := t.refresh k.isNil
  let order := t.order.getD []
  if k.isNil then (t, t.firstAlive order)
  else
    match (Key.ofValue? k).bind (after? · order) with
    | some rest => (t, t.firstAlive rest)
    | none => (t, .unknown)

end Table
end LuaMachine
