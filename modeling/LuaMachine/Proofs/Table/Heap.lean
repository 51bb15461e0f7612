import LuaMachine.Exec.Heap

namespace LuaMachine.Machine

def withTable (m : Machine) (t : TableId) (t' : Table) : Machine :=
  { m with tables := m.tables.modify t.index fun _ => t' }

variable {m : Machine} {t u : TableId} {t' : Table}

theorem table_withTable_of_ne (h : u ≠ t) : (m.withTable t t').table u = m.table u := by
  have hi : ¬t.index = u.index := fun hi => h (by
    cases t
    cases u
    exact congrArg _ hi.symm)
  rw [table, table, withTable, Array.getD_eq_getD_getElem?, Array.getD_eq_getD_getElem?,
    Array.getElem?_modify, if_neg hi]

theorem table_withTable_self (h : t.index < m.tables.size) : (m.withTable t t').table t = t' := by
  rw [table, withTable, Array.getD_eq_getD_getElem?, Array.getElem?_modify, if_pos rfl,
    Array.getElem?_eq_getElem h]
  rfl

theorem modify_tables_eq (m : Machine) (t : TableId) (g : Table → Table) :
    { m with tables := m.tables.modify t.index g } = m.withTable t (g (m.table t)) := by
  rw [withTable]
  congr 1
  apply Array.ext_getElem?
  intro i
  rw [Array.getElem?_modify, Array.getElem?_modify]
  split
  · next h =>
    subst h
    rw [table, Array.getD_eq_getD_getElem?]
    cases m.tables[t.index]? <;> rfl
  · rfl

end LuaMachine.Machine
