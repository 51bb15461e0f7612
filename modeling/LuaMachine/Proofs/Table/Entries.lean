import LuaMachine.Table
import Mathlib.Tactic.Common

namespace LuaMachine

namespace Entries

variable {es : Entries} {k l : Key} {v : Value}

def keys (es : Entries) : List Key := es.map Prod.fst

theorem mem_of_find? (h : es.find? k = some v) : (k, v) ∈ es := by
  induction es with
  | nil => cases h
  | cons e es ih =>
    obtain ⟨j, w⟩ := e
    by_cases hj : j = k
    · subst hj
      obtain rfl : w = v := by simpa [find?] using h
      exact List.mem_cons_self
    · exact List.mem_cons_of_mem _ (ih (by simpa [find?, hj] using h))

theorem find?_eq_none (h : k ∉ es.keys) : es.find? k = none := by
  cases hf : es.find? k with
  | none => rfl
  | some v => exact absurd (List.mem_map_of_mem (f := Prod.fst) (mem_of_find? hf)) h

theorem mem_of_mem_erase {e : Key × Value} (h : e ∈ es.erase k) : e ∈ es := by
  induction es with
  | nil => cases h
  | cons e' es ih =>
    obtain ⟨j, w⟩ := e'
    by_cases hj : j = k
    · exact List.mem_cons_of_mem _ (by simpa [erase, hj] using h)
    · rw [erase, if_neg hj] at h
      rcases List.mem_cons.mp h with rfl | h
      · exact List.mem_cons_self
      · exact List.mem_cons_of_mem _ (ih h)

theorem keys_erase_sublist (k : Key) (es : Entries) : List.Sublist (es.erase k).keys es.keys := by
  induction es with
  | nil => exact .slnil
  | cons e es ih =>
    obtain ⟨j, w⟩ := e
    by_cases hj : j = k
    · simp [erase, keys, hj]
    · simpa [erase, keys, hj] using ih

theorem not_mem_keys_erase (h : es.keys.Nodup) : k ∉ (es.erase k).keys := by
  induction es with
  | nil => exact List.not_mem_nil
  | cons e es ih =>
    obtain ⟨j, w⟩ := e
    obtain ⟨hj, hd⟩ := List.nodup_cons.mp h
    by_cases hk : j = k
    · subst hk
      rwa [erase, if_pos rfl]
    · rw [erase, if_neg hk]
      intro hm
      rcases List.mem_cons.mp hm with he | hm
      · exact hk he.symm
      · exact ih hd hm

theorem find?_erase (h : es.keys.Nodup) :
    (es.erase k).find? l = if k = l then none else es.find? l := by
  by_cases hk : k = l
  · subst hk
    rw [if_pos rfl, find?_eq_none (not_mem_keys_erase h)]
  · rw [if_neg hk, find?_erase_of_ne k l es hk]

theorem erase_eq_self (h : es.find? k = none) : es.erase k = es := by
  induction es with
  | nil => rfl
  | cons e es ih =>
    obtain ⟨j, w⟩ := e
    by_cases hj : j = k
    · simp [find?, hj] at h
    · rw [erase, if_neg hj, ih (by simpa [find?, hj] using h)]

theorem find?_of_mem (hd : es.keys.Nodup) (h : (k, v) ∈ es) : es.find? k = some v := by
  induction es with
  | nil => cases h
  | cons e es ih =>
    obtain ⟨j, w⟩ := e
    obtain ⟨hj, hd⟩ := List.nodup_cons.mp hd
    rcases List.mem_cons.mp h with he | h
    · cases he
      exact if_pos rfl
    · have hm : k ∈ keys es := List.mem_map_of_mem (f := Prod.fst) h
      have hk : j ≠ k := fun hk => hj (hk ▸ hm)
      rw [find?, if_neg hk, ih hd h]

theorem length_erase (h : es.find? k = some v) : (es.erase k).length + 1 = es.length := by
  induction es with
  | nil => cases h
  | cons e es ih =>
    obtain ⟨j, w⟩ := e
    by_cases hj : j = k
    · simp [erase, hj]
    · have hl := ih (by simpa [find?, hj] using h)
      simpa [erase, hj] using hl

theorem mem_of_mem_insert {e : Key × Value} (h : e ∈ es.insert k v) : e = (k, v) ∨ e ∈ es := by
  induction es with
  | nil => exact .inl (List.mem_singleton.mp h)
  | cons e' es ih =>
    obtain ⟨j, w⟩ := e'
    by_cases hj : j = k
    · rw [insert, if_pos hj] at h
      exact (List.mem_cons.mp h).imp_right (List.mem_cons_of_mem _)
    · rw [insert, if_neg hj] at h
      rcases List.mem_cons.mp h with rfl | h
      · exact .inr List.mem_cons_self
      · exact (ih h).imp_right (List.mem_cons_of_mem _)

theorem nodup_keys_insert (h : es.keys.Nodup) : (es.insert k v).keys.Nodup := by
  induction es with
  | nil => exact List.nodup_cons.mpr ⟨List.not_mem_nil, List.nodup_nil⟩
  | cons e es ih =>
    obtain ⟨j, w⟩ := e
    obtain ⟨hj, hd⟩ := List.nodup_cons.mp h
    by_cases hk : j = k
    · subst hk
      simpa [insert, keys] using h
    · rw [insert, if_neg hk]
      refine List.nodup_cons.mpr ⟨fun hm => ?_, ih hd⟩
      obtain ⟨e, he, hej⟩ := List.mem_map.mp hm
      rcases mem_of_mem_insert he with rfl | he
      · exact hk hej.symm
      · exact hj (hej ▸ List.mem_map_of_mem (f := Prod.fst) he)

end Entries

end LuaMachine
