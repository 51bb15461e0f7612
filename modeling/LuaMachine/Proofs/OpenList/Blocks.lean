import LuaMachine.Proofs.OpenList.Items

namespace LuaMachine

open Machine Exec

def Instruction.listItems (i : Instruction) (registers : Nat) (f : Frame) : List Value :=
  if i.b = 0 then
    (f.drop 1).window.slice (i.a + 1) ((f.peek.toInt64?.getD 0).toInt - i.a - 2).toNat ++
      (f.drop 1).window.slice registers ((f.drop 1).top - registers)
  else f.window.slice (i.a + 1) i.b

def Instruction.listTaken (i : Instruction) (registers : Nat) (f : Frame) : Frame :=
  if i.b = 0 then (f.drop 1).setTop registers else f

namespace Machine

def advanced (m : Machine) : Machine := m.modifyTop m.running fun f => { f with pc := f.pc + 1 }

/-- The next instruction is a SETLIST whose block is in the word after it. -/
structure FetchesBlock (m : Machine) (i : Instruction) (block : Nat) (m₁ m₂ : Machine) : Prop where
  fetched : fetch m = .done i m₁
  opcode : i.opcode? = some .setList
  c : i.c = 0
  extra : ∃ x, fetch m₁ = .done x m₂ ∧ x.opcode? = some .extraArg ∧ x.ax = block

variable {m m' m'' m₁ m₂ : Machine} {i : Instruction} {block : Nat} {t : TableId} {start : Nat}
  {items items' : List Value}

theorem TakesItems.append (h : m.TakesItems m' t start items)
    (h' : m'.TakesItems m'' t (start + items.length) items') :
    m.TakesItems m'' t start (items ++ items') := by
  have hne {i j : Int64} (hi : i.toInt ≠ j.toInt) : (Value.int i).rawEq (.int j) = false :=
    Bool.eq_false_iff.mpr fun hr => hi (by cases (Key.rawEq_iff rfl).mp hr; rfl)
  refine ⟨fun {j v} hj => ?_, fun {k} hk => ?_, fun u hu => (h'.tables u hu).trans (h.tables u hu),
    h'.wellFormed⟩
  · rw [List.getElem?_append] at hj
    split at hj
    · next hlt =>
      obtain ⟨hi, hv⟩ := h.item hj
      refine ⟨hi, ?_⟩
      rw [h'.other fun l hl _ => hne (by omega), hv]
    · next hge =>
      have hs : start + items.length + (j - items.length) + 1 = start + j + 1 := by omega
      obtain ⟨hi, hv⟩ := h'.item hj
      rw [hs] at hi hv
      exact ⟨by omega, hv⟩
  · rw [List.length_append] at hk
    rw [h'.other fun l hl hu => hk l (by omega) (by omega),
      h.other fun l hl hu => hk l hl (by omega)]

theorem frame_advanced (hone : 1 < m.frameCount) :
    m.advanced.frame = { m.frame with pc := m.frame.pc + 1 } := frameAt_modifyTop_self hone _

theorem FetchesBlock.eq_advanced (h : m.FetchesBlock i block m₁ m₂) : m₂ = m₁.advanced := by
  obtain ⟨x, hx, -⟩ := h.extra
  rw [fetch_done hx]
  exact modifyTop_congr rfl

theorem FetchesBlock.blockOf (h : m.FetchesBlock i block m₁ m₂) :
    Exec.blockOf i m₁ = .done block m₂ := by
  obtain ⟨x, hx, ho, hb⟩ := h.extra
  rw [Exec.blockOf, if_pos h.c, fetchExtra, run_bind, hx, Outcome.andThen_done, ho, hb]
  rfl

end Machine

namespace Exec

variable {m : Machine} {i j : Instruction} {t : TableId} {start block : Nat}

def storeBlock (i : Instruction) (start : Nat) : Exec Unit := do
  let target ← register i.a
  match target with
  | .table t =>
    if i.b = 0 then
      let n := ((← marker).toInt - i.a - 2).toNat
      drop 1
      let registers ← read registerCount
      let items ← readFrame fun f =>
        f.window.slice (i.a + 1) n ++ f.window.slice registers (f.top - registers)
      storeItems t start items
      modifyFrame (·.setTop registers)
    else
      storeItems t start (← readFrame fun f => f.window.slice (i.a + 1) i.b)
  | v => fault (.notIndexable v.kind)

theorem setList_eq (i : Instruction) :
    setList i = (do storeBlock i ((← blockOf i) * blockSize) : Exec Unit) := by
  unfold setList blockOf
  by_cases hc : i.c = 0
  · simp only [if_pos hc]
    rfl
  · simp only [if_neg hc]
    rfl

theorem run_marker (m : Machine) : marker m = .done (m.frame.peek.toInt64?.getD 0) m := by
  have hv : valueAt (-1) m = .done m.frame.peek m := by
    have hp : m.frame.place (-1) = if 0 < m.frame.top then .slot (m.frame.top - 1) else .nowhere := by
      have hr : registryIndex = -1001000 := rfl
      have ha : m.frame.absolute (-1) = m.frame.top := by
        rw [Frame.absolute, if_neg (by omega)]
        omega
      rw [Frame.place, if_neg (by omega), if_neg (by omega), ha]
      by_cases ht : 0 < m.frame.top
      · rw [if_pos (by omega), if_pos ht]
        rfl
      · rw [if_neg (by omega), if_neg ht]
    rw [valueAt, run_bind, run_readFrame, Outcome.andThen_done, hp, Frame.peek]
    split
    · next ht =>
      rw [if_neg (by omega)]
      rfl
    · next ht =>
      rw [if_pos (by omega)]
      rfl
  rw [marker, run_bind, hv]
  rfl

theorem storeBlock_table (start : Nat) (hone : 1 < m.frameCount) (ht : m.frame.slot i.a = .table t) :
    storeBlock i start m = .done () ((m.modifyTop m.running (i.listTaken (registerCount m))).withItems t
      start (i.listItems (registerCount m) m.frame)) := by
  rw [storeBlock, run_bind, register, run_readFrame, Outcome.andThen_done, ht]
  dsimp only
  rw [run_ite, Instruction.listItems]
  by_cases hb : i.b = 0
  · have hf : (m.modifyTop m.running (·.drop 1)).frame = m.frame.drop 1 :=
      frameAt_modifyTop_self hone _
    have hc : registerCount (m.modifyTop m.running (·.drop 1)) = registerCount m := by
      rw [registerCount, prototype_modifyTop hone rfl]
      rfl
    have hg : i.listTaken (registerCount m) = (·.setTop (registerCount m)) ∘ (·.drop 1) :=
      funext fun f => if_pos hb
    rw [if_pos hb, if_pos hb, run_bind, run_marker, Outcome.andThen_done, hg, ← modifyTop_modifyTop,
      ← hf, ← hc]
    rfl
  · have hg : i.listTaken (registerCount m) = id := funext fun f => if_neg hb
    rw [if_neg hb, if_neg hb, hg, modifyTop_id]
    rfl

theorem storeBlock_stuck (ht : ∀ t, m.frame.slot i.a ≠ .table t) : storeBlock i start m =
    .raised (.fault (.notIndexable (m.frame.slot i.a).kind) m.location) m := by
  rw [storeBlock, run_bind, register, run_readFrame, Outcome.andThen_done]
  generalize m.frame.slot i.a = v at ht
  cases v with
  | table t => exact absurd rfl (ht t)
  | _ => rfl

theorem storeBlock_advanced (start : Nat) (hone : 1 < m.frameCount) (ht : m.frame.slot i.a = .table t) :
    ∃ m', storeBlock i start m = .done () m' ∧ storeBlock i start m.advanced = .done () m'.advanced := by
  have hf := frame_advanced hone
  have hc : registerCount m.advanced = registerCount m := by
    rw [registerCount, advanced, prototype_modifyTop hone rfl]
    rfl
  have hone' : 1 < m.advanced.frameCount := Nat.lt_of_lt_of_eq hone (m.size_modifyTop ..).symm
  have ht' : m.advanced.frame.slot i.a = .table t := by
    rw [hf]
    exact ht
  have hitems : i.listItems (registerCount m) m.advanced.frame =
      i.listItems (registerCount m) m.frame := by
    rw [hf, Instruction.listItems, Instruction.listItems]
    rfl
  -- moving the counter commutes with taking the items off the stack
  have htaken : i.listTaken (registerCount m) ∘ (fun f => { f with pc := f.pc + 1 }) =
      (fun f => { f with pc := f.pc + 1 }) ∘ i.listTaken (registerCount m) := by
    funext f
    unfold Instruction.listTaken Function.comp
    split <;> rfl
  refine ⟨_, storeBlock_table start hone ht, ?_⟩
  rw [storeBlock_table start hone' ht', hc, hitems]
  have hm : m.advanced.modifyTop m.running (i.listTaken (registerCount m)) =
      (m.modifyTop m.running (i.listTaken (registerCount m))).advanced := by
    rw [advanced, modifyTop_modifyTop, htaken, ← modifyTop_modifyTop]
    rfl
  exact congrArg (fun m' : Machine => Outcome.done ()
    (m'.withItems t start (i.listItems (registerCount m) m.frame))) hm

theorem storeBlock_congr (ha : j.a = i.a) (hb : j.b = i.b) : storeBlock j start = storeBlock i start := by
  rw [storeBlock, storeBlock, ha, hb]

theorem setList_of_block {m' : Machine} (hb : blockOf i m = .done block m') :
    setList i m = storeBlock i (block * blockSize) m' := by
  rw [setList_eq, run_bind, hb, Outcome.andThen_done]

theorem blockOf_operand (hc : i.c = block + 1) (m : Machine) : blockOf i m = .done block m := by
  rw [blockOf, if_neg (by omega), hc]
  rfl

variable {re : Reentry}

theorem carryOut_setList (ho : i.opcode? = some .setList) :
    carryOut re i m = (setList i m).andThen fun _ => pure none := by
  rw [carryOut_plain re ho (by decide)]
  rfl

end Exec

/-- How SETLIST stores a block whose number is in the word after it, where the first block has the
number 0. -/
structure Reentry.NumbersBlocks (re : Reentry) : Prop where
  /-- An instruction with the same operands that counts the block from 1 does the same in its place;
  only the program counter differs. -/
  agrees : ∀ {m m₁ m₂ : Machine} {i j : Instruction} {block : Nat} {t : TableId},
    m.FetchesBlock i block m₁ m₂ → 1 < m.frameCount → m.frame.slot i.a = .table t →
    j.opcode? = some .setList → j.a = i.a → j.b = i.b → j.c = block + 1 →
    ∃ m', carryOut re j m₁ = .done none m' ∧ execute re m = .done none m'.advanced
  stuck : ∀ {m m₁ m₂ : Machine} {i j : Instruction} {block : Nat},
    m.FetchesBlock i block m₁ m₂ → 1 < m.frameCount → (∀ t, m.frame.slot i.a ≠ .table t) →
    j.opcode? = some .setList → j.a = i.a → j.b = i.b → j.c = block + 1 →
    carryOut re j m₁ = .raised (.fault (.notIndexable (m.frame.slot i.a).kind) m₁.location) m₁ ∧
      execute re m = .raised (.fault (.notIndexable (m.frame.slot i.a).kind) m₂.location) m₂
  registers : ∀ {m m₁ m₂ : Machine} {i : Instruction} {block : Nat} {t : TableId},
    m.FetchesBlock i block m₁ m₂ → 1 < m.frameCount → 0 < i.b → m.frame.slot i.a = .table t →
    t.index < m.tables.size → (m.table t).WellFormed →
    ∃ t', execute re m = .done none (m₂.withTable t t') ∧
      m.TakesItems (m₂.withTable t t') t (block * blockSize)
        ((List.range' (i.a + 1) i.b).map m.frame.slot)
  gathered : ∀ {m m₁ m₂ : Machine} {p i : Instruction} {block : Nat} {t : TableId}
      {regs vs : List Value}, m.Offers p.a regs vs → m.FetchesBlock i block m₁ m₂ → i.b = 0 →
    p.a ≤ regs.length → regs[i.a]? = some (.table t) → t.index < m.tables.size →
    (m.table t).WellFormed →
    block * blockSize + (registersBetween regs (i.a + 1) p.a ++ vs).length ≤ Table.greatestIndex →
    ∃ t' m', execute re m = .done none m' ∧ (m₂.withTable t t').Restacked m' ∧
      m'.Holds regs.length regs ∧ m'.frame.top = registerCount m' ∧
      m.TakesItems m' t (block * blockSize) (registersBetween regs (i.a + 1) p.a ++ vs)
  /-- A full block and the next one are one list. -/
  contiguous : ∀ {m m' m'' : Machine} {t : TableId} {block : Nat} {items items' : List Value},
    m.TakesItems m' t (block * blockSize) items → items.length = blockSize →
    m'.TakesItems m'' t ((block + 1) * blockSize) items' →
    m.TakesItems m'' t (block * blockSize) (items ++ items')

/-- Blocks are counted from 1 by the operand, and from 0 by the word after the instruction. -/
theorem Reentry.numbersBlocks (re : Reentry) : re.NumbersBlocks := by
  have hslot {m m₁ : Machine} {i : Instruction} (hf : fetch m = .done i m₁) (hone : 1 < m.frameCount) :
      m₁.frame.slot = m.frame.slot := by
    rw [frame_fetched hf hone]
    rfl
  have hcount {m m₁ : Machine} {i : Instruction} (hf : fetch m = .done i m₁) :
      m₁.frameCount = m.frameCount := by
    rw [fetch_done hf]
    exact m.size_modifyTop ..
  have htables {m m₁ m₂ : Machine} {i : Instruction} {block : Nat}
      (h : m.FetchesBlock i block m₁ m₂) : m₂.tables = m.tables := by
    rw [h.eq_advanced, fetch_done h.fetched]
    rfl
  have hexecute {m m₁ m₂ : Machine} {i : Instruction} {block : Nat}
      (h : m.FetchesBlock i block m₁ m₂) : execute re m =
        (storeBlock i (block * blockSize) m₁.advanced).andThen fun _ => pure none := by
    rw [execute_fetched re h.fetched, carryOut_setList h.opcode, setList_of_block h.blockOf,
      h.eq_advanced]
  have hinline {m : Machine} {i j : Instruction} {block : Nat} (ho : j.opcode? = some .setList)
      (ha : j.a = i.a) (hb : j.b = i.b) (hc : j.c = block + 1) : carryOut re j m =
        (storeBlock i (block * blockSize) m).andThen fun _ => pure none := by
    rw [carryOut_setList ho, setList_of_block (blockOf_operand hc m), storeBlock_congr ha hb]
  constructor
  case agrees =>
    intro m m₁ m₂ i j block t h hone ht ho ha hb hc
    rw [← hslot h.fetched hone] at ht
    rw [← hcount h.fetched] at hone
    obtain ⟨m', he, he'⟩ := storeBlock_advanced (block * blockSize) hone ht
    refine ⟨m', ?_, ?_⟩
    · rw [hinline ho ha hb hc, he]
      rfl
    · rw [hexecute h, he']
      rfl
  case stuck =>
    intro m m₁ m₂ i j block h hone ht ho ha hb hc
    rw [← hslot h.fetched hone] at ht ⊢
    rw [← hcount h.fetched] at hone
    have hf : m₁.advanced.frame.slot = m₁.frame.slot := by
      rw [frame_advanced hone]
      rfl
    constructor
    · rw [hinline ho ha hb hc, storeBlock_stuck ht]
      rfl
    · rw [hexecute h, h.eq_advanced, ← hf, storeBlock_stuck (hf.symm ▸ ht)]
      rfl
  case registers =>
    intro m m₁ m₂ i block t h hone hb ht hlt hw
    have hs : m₂.frame.slot = m.frame.slot := by
      obtain ⟨x, hx, -⟩ := h.extra
      rw [hslot hx (hcount h.fetched ▸ hone), hslot h.fetched hone]
    have hone₂ : 1 < m₂.frameCount := by
      obtain ⟨x, hx, -⟩ := h.extra
      rw [hcount hx, hcount h.fetched]
      exact hone
    have he := storeBlock_table (block * blockSize) hone₂ ((congrFun hs i.a).trans ht)
    have hg : i.listTaken (registerCount m₂) = id := funext fun f => if_neg (by omega)
    have hi : i.listItems (registerCount m₂) m₂.frame =
        (List.range' (i.a + 1) i.b).map m.frame.slot := by
      rw [Instruction.listItems, if_neg (by omega), ← hs]
      rfl
    rw [hg, modifyTop_id, hi, withItems_eq] at he
    -- the fields of the instruction words are too small for an index out of range
    have hn : block * blockSize + ((List.range' (i.a + 1) i.b).map m.frame.slot).length ≤
        Table.greatestIndex := by
      obtain ⟨x, -, -, hx⟩ := h.extra
      have hb : i.b < 2 ^ 32 := UInt32.toNat_lt _
      have hx' : x.ax < 2 ^ 32 := UInt32.toNat_lt _
      rw [List.length_map, List.length_range', blockSize, Table.greatestIndex]
      omega
    refine ⟨_, ?_, takesItems hw hlt hn (htables h) (by rw [withItems_eq])⟩
    rw [hexecute h, ← h.eq_advanced, he]
    rfl
  case gathered =>
    intro m m₁ m₂ p i block t regs vs hm h h0 hp ht hlt hw hn
    obtain ⟨m', he, hm', hr⟩ := setList_open (fetch_holds h.fetched hm) h0
      (List.getElem?_eq_some_iff.mp ht).1 hp p.a_lt ht h.blockOf
    have ht' : m'.tables = (m₂.withItems t (block * blockSize)
        (registersBetween regs (i.a + 1) p.a ++ vs)).tables := by
      obtain ⟨g, -, rfl⟩ := hr
      rfl
    exact ⟨_, m', execute_setList_of_done h.fetched h.opcode he, withItems_eq .. ▸ hr, hm',
      by rw [hm'.top, hm'.registers], takesItems hw hlt hn (htables h) ht'⟩
  case contiguous =>
    intro m m' m'' t block items items' h hl h'
    refine h.append ?_
    rw [hl, ← Nat.succ_mul]
    exact h'

def Machine.filing (code : Array Instruction) : Machine :=
  { Machine.new {} with
    functions := #[{ body := .bytecode { registers := 3, code } }]
    tables := #[{}, {}, {}]
    threads := #[{ isMain := true, parked := false, phase := .running, frames := #[{}, {
      window := #[.table ⟨2⟩, .int 5, .int 8], top := 3, function := some ⟨0⟩ }] }] }

/-- The number of the first block does not mean the first block in the word after the instruction. -/
theorem Machine.filing_shifted : ∃ m m' : Machine,
    execute (({} : Host).reentry 1) (Machine.filing #[.ofABC .setList 0 2 1]) = .done none m ∧
      (m.table ⟨2⟩).get (.int 1) = .int 5 ∧ (m.table ⟨2⟩).get (.int 51) = .nil ∧
    execute (({} : Host).reentry 1) (Machine.filing #[.ofABC .setList 0 2 0, .ofAx .extraArg 1]) =
      .done none m' ∧
      (m'.table ⟨2⟩).get (.int 1) = .nil ∧ (m'.table ⟨2⟩).get (.int 51) = .int 5 :=
  ⟨_, _, rfl, by decide, by decide, rfl, by decide, by decide⟩

theorem Reentry.numbersBlocks_filing : ∃ m₁ m₂ m' : Machine, ∃ t' : Table,
    (Machine.filing #[.ofABC .setList 0 2 0, .ofAx .extraArg 510]).FetchesBlock (.ofABC .setList 0 2 0)
      510 m₁ m₂ ∧
    carryOut (({} : Host).reentry 1) (.ofABC .setList 0 2 511) m₁ = .done none m' ∧
    execute (({} : Host).reentry 1) (Machine.filing #[.ofABC .setList 0 2 0, .ofAx .extraArg 510]) =
      .done none m'.advanced ∧
    m'.advanced = m₂.withTable ⟨2⟩ t' ∧
    (m'.advanced.table ⟨2⟩).get (.int 25501) = .int 5 ∧
      (m'.advanced.table ⟨2⟩).get (.int 25502) = .int 8 := by
  have hn := (({} : Host).reentry 1).numbersBlocks
  obtain ⟨m₁, m₂, hf⟩ : ∃ m₁ m₂ : Machine,
      (Machine.filing #[.ofABC .setList 0 2 0, .ofAx .extraArg 510]).FetchesBlock
        (.ofABC .setList 0 2 0) 510 m₁ m₂ :=
    ⟨_, _, rfl, rfl, rfl, _, rfl, rfl, rfl⟩
  obtain ⟨m', hc, he⟩ := hn.agrees (t := ⟨2⟩) hf (by decide) rfl
    (show (Instruction.ofABC .setList 0 2 511).opcode? = some .setList from rfl) rfl rfl rfl
  obtain ⟨t', he', hk⟩ := hn.registers (t := ⟨2⟩) hf (by decide) (by decide) rfl (by decide)
    Table.wellFormed_empty
  have hm := (Outcome.done.inj (he.symm.trans he')).2
  rw [← hm] at hk
  exact ⟨m₁, m₂, m', t', hf, hc, he, hm, (hk.item (j := 0) rfl).2, (hk.item (j := 1) rfl).2⟩

end LuaMachine
