import LuaMachine.Proofs.OpenList.Protocol
import LuaMachine.Proofs.Table.Heap
import LuaMachine.Proofs.Table.History

namespace LuaMachine

open Machine Exec

namespace Table

def putItems (t : Table) (start : Nat) : List Value → Table
  | [] => t
  | v :: items => (t.putInt (Int64.ofNat (start + 1)) v).putItems (start + 1) items

variable {t : Table} {start j : Nat} {items : List Value} {v : Value}

theorem foldl_putInt (t : Table) (start : Nat) (items : List Value) :
    (items.foldl (fun (t, i) v => (t.putInt (Int64.ofNat (i + 1)) v, i + 1)) (t, start)).1 =
      t.putItems start items := by
  induction items generalizing t start with
  | nil => rfl
  | cons v items ih => exact ih ..

theorem WellFormed.putInt (h : t.WellFormed) (i : Int64) (v : Value) : (t.putInt i v).WellFormed :=
  wellFormed_putKey h (Key.isNormal_int i) v

theorem WellFormed.putItems (h : t.WellFormed) (start : Nat) (items : List Value) :
    (t.putItems start items).WellFormed := by
  induction items generalizing t start with
  | nil => exact h
  | cons v items ih => exact ih (h.putInt _ v) (start + 1)

theorem WellFormed.getKey_putItems_outside (h : t.WellFormed) {k : Key}
    (hn : start + items.length ≤ greatestIndex)
    (hk : ∀ i : Int64, start < i.toInt → i.toInt ≤ start + items.length → .int i ≠ k) :
    (t.putItems start items).getKey k = t.getKey k := by
  induction items generalizing t start with
  | nil => rfl
  | cons v items ih =>
    rw [List.length_cons] at hn hk
    have hi : (Int64.ofNat (start + 1)).toInt = start + 1 := toInt_ofNat (by omega)
    have hne := hk (Int64.ofNat (start + 1)) (by omega) (by omega)
    rw [Table.putItems, ih (h.putInt _ v) (by omega) fun i hl hu => hk i (by omega) (by omega),
      Table.putInt, getKey_putKey h, if_neg hne]

theorem WellFormed.getKey_putItems (h : t.WellFormed) {i : Int64}
    (hn : start + items.length ≤ greatestIndex) (hj : items[j]? = some v)
    (hi : i.toInt = start + j + 1) : (t.putItems start items).getKey (.int i) = v := by
  induction items generalizing t start j with
  | nil => cases hj
  | cons w items ih =>
    rw [List.length_cons] at hn
    cases j with
    | zero =>
      -- The keys of the other items are greater.
      cases hj
      have hs : (Int64.ofNat (start + 1)).toInt = start + 1 := toInt_ofNat (by omega)
      obtain rfl : Int64.ofNat (start + 1) = i := Int64.toInt_inj.mp (by omega)
      rw [Table.putItems, (h.putInt _ v).getKey_putItems_outside (by omega) fun l hl _ he => by
          rw [Key.int.inj he] at hl
          omega,
        Table.putInt, getKey_putKey h, if_pos rfl]
    | succ j => exact ih (h.putInt _ w) (by omega) hj (by omega)

end Table

namespace Machine

structure TakesItems (m m' : Machine) (t : TableId) (start : Nat) (items : List Value) : Prop where
  item : ∀ {j : Nat} {v : Value}, items[j]? = some v →
    (Int64.ofNat (start + j + 1)).toInt = start + j + 1 ∧
      (m'.table t).get (.int (Int64.ofNat (start + j + 1))) = v
  other : ∀ {k : Value}, (∀ i : Int64, start < i.toInt → i.toInt ≤ start + items.length →
    (Value.int i).rawEq k = false) → (m'.table t).get k = (m.table t).get k
  tables : ∀ u, u ≠ t → m'.table u = m.table u
  wellFormed : (m'.table t).WellFormed

variable {m m₁ m' : Machine} {t : TableId} {start : Nat} {items : List Value}

theorem withItems_eq (m : Machine) (t : TableId) (start : Nat) (items : List Value) :
    m.withItems t start items = m.withTable t ((m.table t).putItems start items) := by
  rw [withItems, modify_tables_eq, Table.foldl_putInt]

theorem takesItems (h : (m.table t).WellFormed) (ht : t.index < m.tables.size)
    (hn : start + items.length ≤ Table.greatestIndex) (h₁ : m₁.tables = m.tables)
    (hm : m'.tables = (m₁.withItems t start items).tables) : m.TakesItems m' t start items := by
  have hu (u : TableId) :
      m'.table u = (m.withTable t ((m.table t).putItems start items)).table u := by
    rw [← withItems_eq, table, hm, withItems, h₁]
    rfl
  have hself : m'.table t = (m.table t).putItems start items :=
    (hu t).trans (table_withTable_self ht)
  refine ⟨fun {j v} hj => ?_, fun {k} hk => ?_, fun u hne => ?_, ?_⟩
  · have hl := (List.getElem?_eq_some_iff.mp hj).1
    have hi : (Int64.ofNat (start + j + 1)).toInt = start + j + 1 := Table.toInt_ofNat (by omega)
    rw [hself]
    exact ⟨hi, h.getKey_putItems hn hj hi⟩
  · rw [hself, Table.get, Table.get]
    cases hv : Key.ofValue? k with
    | none => rfl
    | some l =>
      refine h.getKey_putItems_outside hn fun i hlow hup he => ?_
      have hr : (Value.int i).rawEq k = true := (Key.rawEq_iff rfl).mpr (hv.trans (congrArg _ he.symm))
      rw [hk i hlow hup] at hr
      cases hr
  · rw [hu, table_withTable_of_ne hne]
  · rw [hself]
    exact h.putItems start items

end Machine

/-- How SETLIST stores a block of a list, which an operand counts from 1. -/
structure Reentry.StoresBlocks (re : Reentry) : Prop where
  registers : ∀ {m m₁ : Machine} {i : Instruction} {block : Nat} {t : TableId},
    1 < m.frameCount → fetch m = .done i m₁ → i.opcode? = some .setList → i.c = block + 1 →
    0 < i.b → m.frame.slot i.a = .table t → t.index < m.tables.size → (m.table t).WellFormed →
    ∃ t', execute re m = .done none (m₁.withTable t t') ∧
      m.TakesItems (m₁.withTable t t') t (block * blockSize)
        ((List.range' (i.a + 1) i.b).map m.frame.slot)
  /-- An open list has the last items. It is gone afterwards, and so is its marker. -/
  gathered : ∀ {m m₁ : Machine} {p i : Instruction} {block : Nat} {t : TableId}
      {regs vs : List Value}, m.Offers p.a regs vs → fetch m = .done i m₁ →
    i.opcode? = some .setList → i.c = block + 1 → i.b = 0 → p.a ≤ regs.length →
    regs[i.a]? = some (.table t) → t.index < m.tables.size → (m.table t).WellFormed →
    block * blockSize + (registersBetween regs (i.a + 1) p.a ++ vs).length ≤ Table.greatestIndex →
    ∃ t' m', execute re m = .done none m' ∧ (m₁.withTable t t').Restacked m' ∧
      m'.Holds regs.length regs ∧ m'.frame.top = registerCount m' ∧
      m.TakesItems m' t (block * blockSize) (registersBetween regs (i.a + 1) p.a ++ vs)

namespace Exec

variable {re : Reentry} {m m₁ : Machine} {i : Instruction} {t : TableId} {block : Nat}

theorem setList_registers (hc : i.c = block + 1) (hb : 0 < i.b) (ht : m.frame.slot i.a = .table t) :
    setList i m = .done () (m.withItems t (block * blockSize)
      ((List.range' (i.a + 1) i.b).map m.frame.slot)) := by
  unfold setList
  rw [if_neg (by omega), run_bind, run_pure, Outcome.andThen_done, hc, Nat.add_sub_cancel]
  dsimp only
  rw [run_bind, register, run_readFrame, Outcome.andThen_done, ht]
  dsimp only
  rw [if_neg (by omega)]
  rfl

theorem execute_setList_of_done {m' : Machine} (hf : fetch m = .done i m₁)
    (ho : i.opcode? = some .setList) (he : setList i m₁ = .done () m') :
    execute re m = .done none m' := by
  rw [execute_plain hf ho (by decide) rfl, plainInstruction, run_bind, he, Outcome.andThen_done,
    run_pure]

end Exec

/-- SETLIST stores each item under its key and nothing else. -/
theorem Reentry.storesBlocks (re : Reentry) : re.StoresBlocks := by
  have htables {m m₁ : Machine} {i : Instruction} (hf : fetch m = .done i m₁) :
      m₁.tables = m.tables := by
    rw [fetch_done hf]
    rfl
  constructor
  case registers =>
    intro m m₁ i block t hi hf ho hc hb ht hlt hw
    have hslot : m₁.frame.slot = m.frame.slot := by
      rw [frame_fetched hf hi]
      rfl
    have he := setList_registers hc hb ((congrFun hslot i.a).trans ht)
    -- Both operands are numbers of 32 bits at most, so the keys fit.
    have hn : block * blockSize + ((List.range' (i.a + 1) i.b).map m.frame.slot).length ≤
        Table.greatestIndex := by
      have hb : i.b < 2 ^ 32 := UInt32.toNat_lt _
      have hc' : i.c < 2 ^ 32 := UInt32.toNat_lt _
      rw [List.length_map, List.length_range', blockSize, Table.greatestIndex]
      omega
    rw [hslot] at he
    refine ⟨_, (execute_setList_of_done hf ho he).trans (congrArg _ (withItems_eq ..)),
      takesItems hw hlt hn (htables hf) ?_⟩
    rw [withItems_eq]
  case gathered =>
    intro m m₁ p i block t regs vs hm hf ho hc h0 hp ht hlt hw hn
    have hblock : blockOf i m₁ = .done block m₁ := by
      rw [blockOf, if_neg (by omega), hc]
      rfl
    obtain ⟨m', he, hm', hr⟩ := setList_open (fetch_holds hf hm) h0
      (List.getElem?_eq_some_iff.mp ht).1 hp p.a_lt ht hblock
    have ht' : m'.tables = (m₁.withItems t (block * blockSize)
        (registersBetween regs (i.a + 1) p.a ++ vs)).tables := by
      obtain ⟨g, -, rfl⟩ := hr
      rfl
    exact ⟨_, m', execute_setList_of_done hf ho he, withItems_eq .. ▸ hr, hm',
      by rw [hm'.top, hm'.registers], takesItems hw hlt hn (htables hf) ht'⟩

/-- The second block of a list is stored into table 2, which has something at two of its places and
after them. An open list is there. -/
def Machine.listing (b : UInt32) : Machine :=
  { Machine.new {} with
    functions := #[{ body := .bytecode { registers := 3, code := #[.ofABC .setList 0 b 2] } }]
    tables := #[{}, {}, ((({} : Table).putInt 52 (.bool true)).putInt 53 (.bool true)).putInt 54
      (.bool true)]
    threads := #[{ isMain := true, parked := false, phase := .running, frames := #[{}, {
      window := #[.table ⟨2⟩, .int 5, .nil, .int 8, .nil, markerAt 2], top := 6,
      function := some ⟨0⟩ }] }] }

theorem Reentry.storesBlocks_listing :
    (∃ m', execute (({} : Host).reentry 1) (Machine.listing 2) = .done none m' ∧
      (m'.table ⟨2⟩).get (.int 51) = .int 5 ∧ (m'.table ⟨2⟩).get (.int 52) = .nil ∧
      (m'.table ⟨2⟩).get (.int 53) = .bool true) ∧
    ∃ m', execute (({} : Host).reentry 1) (Machine.listing 0) = .done none m' ∧
      m'.frame.values = [.table ⟨2⟩, .int 5, .nil] ∧
      (m'.table ⟨2⟩).get (.int 51) = .int 5 ∧ (m'.table ⟨2⟩).get (.int 52) = .int 8 ∧
      (m'.table ⟨2⟩).get (.int 53) = .nil ∧ (m'.table ⟨2⟩).get (.int 54) = .bool true := by
  have hs := (({} : Host).reentry 1).storesBlocks
  have hne {i j : Int64} (h : i.toInt ≠ j.toInt) : (Value.int i).rawEq (.int j) = false :=
    Bool.eq_false_iff.mpr fun hr => h (by cases (Key.rawEq_iff rfl).mp hr; rfl)
  have hw (b : UInt32) : ((Machine.listing b).table ⟨2⟩).WellFormed :=
    ((Table.wellFormed_empty.putInt 52 _).putInt 53 _).putInt 54 _
  constructor
  · have hc : (Instruction.ofABC .setList 0 2 2).c = 1 + 1 := rfl
    obtain ⟨t', he, hk⟩ := hs.registers (m := Machine.listing 2) (by decide) rfl rfl hc (by decide)
      rfl (by decide) (hw 2)
    refine ⟨_, he, (hk.item (j := 0) rfl).2, (hk.item (j := 1) rfl).2, ?_⟩
    rw [hk.other fun i hl hu => hne (Int.ne_of_lt (Int.lt_of_le_of_lt hu (by decide)))]
    decide
  · have hm : (Machine.listing 0).Offers 2 [.table ⟨2⟩, .int 5, .nil] [.int 8, .nil] :=
      ⟨by decide, by decide, rfl, rfl⟩
    have hc : (Instruction.ofABC .setList 0 0 2).c = 1 + 1 := rfl
    obtain ⟨t', m', he, -, hm', -, hk⟩ := hs.gathered (p := .ofABC .vararg 2 0 0) hm rfl rfl hc rfl
      (by decide) rfl (by decide) (hw 0) (by decide)
    refine ⟨m', he, hm'.values, (hk.item (j := 0) rfl).2, (hk.item (j := 1) rfl).2,
      (hk.item (j := 2) rfl).2, ?_⟩
    rw [hk.other fun i hl hu => hne (Int.ne_of_lt (Int.lt_of_le_of_lt hu (by decide)))]
    decide

end LuaMachine
