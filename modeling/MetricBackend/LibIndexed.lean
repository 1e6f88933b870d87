import Mathlib.Data.List.Basic
import Mathlib.Data.List.Nodup
import Mathlib.Data.List.Perm.Basic

/-! Lists of entries with distinct keys in which one entry is replaced or dropped by its index. -/

namespace MetricBackend

variable {α κ : Type} {entries : List α} {index other : Nat} {entry replacement value : α}

theorem mem_of_mem_set (hentry : value ∈ entries.set index replacement) :
    value = replacement ∨ ∃ other, other ≠ index ∧ entries[other]? = some value := by
  obtain ⟨other, hother⟩ := List.getElem?_of_mem hentry
  by_cases heq : other = index
  · left
    rw [heq, List.getElem?_set_self'] at hother
    obtain ⟨-, -, rfl⟩ := Option.map_eq_some_iff.mp hother
    rfl
  · right
    rw [List.getElem?_set_ne (Ne.symm heq)] at hother
    exact ⟨other, heq, hother⟩

theorem mem_of_mem_eraseIdx_ne (hentry : value ∈ entries.eraseIdx index) :
    ∃ other, other ≠ index ∧ entries[other]? = some value := by
  obtain ⟨other, hother⟩ := List.getElem?_of_mem hentry
  rw [List.getElem?_eraseIdx] at hother
  split_ifs at hother with hlt
  · exact ⟨other, Nat.ne_of_lt hlt, hother⟩
  · exact ⟨other + 1, by omega, hother⟩

theorem eraseIdx_append_singleton (entries : List α) (entry : α) :
    (entries ++ [entry]).eraseIdx entries.length = entries := by
  rw [List.eraseIdx_append_of_length_le (Nat.le_refl _), Nat.sub_self]
  simp

theorem perm_cons_eraseIdx (hentry : entries[index]? = some entry) :
    entries.Perm (entry :: entries.eraseIdx index) := by
  obtain ⟨hlength, rfl⟩ := List.getElem?_eq_some_iff.mp hentry
  exact (List.getElem_cons_eraseIdx_perm hlength).symm

theorem set_perm_cons_eraseIdx (hentry : entries[index]? = some entry) (replacement : α) :
    (entries.set index replacement).Perm (replacement :: entries.eraseIdx index) := by
  obtain ⟨hlength, -⟩ := List.getElem?_eq_some_iff.mp hentry
  exact List.set_perm_cons_eraseIdx hlength replacement

variable {key : α → κ}

theorem key_ne_of_nodup (hnodup : (entries.map key).Nodup) (hentry : entries[index]? = some entry)
    (hother : entries[other]? = some value) (hne : other ≠ index) : key value ≠ key entry := by
  intro heq
  have hleft : (entries.map key)[other]? = some (key value) := by
    rw [List.getElem?_map, hother]
    rfl
  have hright : (entries.map key)[index]? = some (key value) := by
    rw [List.getElem?_map, hentry, heq]
    rfl
  have hlength : other < (entries.map key).length := (List.getElem?_eq_some_iff.mp hleft).1
  exact hne ((List.getElem?_inj hlength hnodup).mp (hleft.trans hright.symm))

theorem map_set_of_key_eq (hentry : entries[index]? = some entry) (hkey : key replacement = key entry) :
    (entries.set index replacement).map key = entries.map key := by
  rw [List.map_set, hkey]
  apply List.ext_getElem?
  intro other
  by_cases heq : index = other
  · subst heq
    rw [List.getElem?_set_self', List.getElem?_map, hentry]
    rfl
  · rw [List.getElem?_set_ne heq]

theorem nodup_map_eraseIdx (hnodup : (entries.map key).Nodup) (index : Nat) :
    ((entries.eraseIdx index).map key).Nodup :=
  hnodup.sublist (List.Sublist.map key (List.eraseIdx_sublist entries index))

end MetricBackend
