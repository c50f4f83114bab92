/-
# Dictionaries

What `dictionary_put` and `dictionary_remove` do to what `dictionary_get` finds. A
removal drops the first node of the key only, which is the only one when no key has two.
-/

import SockMyPort.Commons.Collections

namespace SockMyPort.Commons

variable {κ β : Type} [DecidableEq κ] {dictionary : List (κ × β)} {key other : κ} {value : β}

@[simp]
theorem dictionaryGet_cons_self (dictionary : List (κ × β)) (key : κ) (value : β) :
    dictionaryGet ((key, value) :: dictionary) key = some value := by
  simp [dictionaryGet]

theorem dictionaryGet_cons_of_ne (hne : other ≠ key) :
    dictionaryGet ((key, value) :: dictionary) other = dictionaryGet dictionary other := by
  simp [dictionaryGet, hne.symm]

theorem dictionaryHasKey_eq (dictionary : List (κ × β)) (key : κ) :
    dictionaryHasKey dictionary key = (dictionaryGet dictionary key).isSome := by
  rw [Bool.eq_iff_iff, dictionaryHasKey, dictionaryGet, Option.isSome_map, List.find?_isSome,
    List.any_eq_true]

theorem mem_of_dictionaryGet (hget : dictionaryGet dictionary key = some value) :
    (key, value) ∈ dictionary := by
  obtain ⟨node, hfind, rfl⟩ := Option.map_eq_some_iff.mp hget
  have hkey : node.1 = key := by simpa using List.find?_some hfind
  rw [← hkey]
  exact List.mem_of_find?_eq_some hfind

theorem exists_dictionaryGet_of_mem (hmem : (key, value) ∈ dictionary) :
    ∃ found, dictionaryGet dictionary key = some found := by
  refine Option.isSome_iff_exists.mp ?_
  rw [← dictionaryHasKey_eq, dictionaryHasKey, List.any_eq_true]
  exact ⟨(key, value), hmem, decide_eq_true rfl⟩

theorem dictionaryGet_eq_none_iff :
    dictionaryGet dictionary key = none ↔ key ∉ dictionary.map Prod.fst := by
  simp only [dictionaryGet, Option.map_eq_none_iff, List.find?_eq_none, decide_eq_true_eq,
    List.mem_map, not_exists, not_and]

theorem dictionaryRemove_cons_self (dictionary : List (κ × β)) (key : κ) (value : β) :
    dictionaryRemove ((key, value) :: dictionary) key = dictionary := by
  simp [dictionaryRemove]

theorem dictionaryRemove_cons_of_ne (hne : other ≠ key) :
    dictionaryRemove ((other, value) :: dictionary) key =
      (other, value) :: dictionaryRemove dictionary key := by
  simp [dictionaryRemove, hne]

theorem dictionaryGet_dictionaryRemove_of_ne (hne : other ≠ key) :
    dictionaryGet (dictionaryRemove dictionary key) other = dictionaryGet dictionary other := by
  induction dictionary with
  | nil => rfl
  | cons node dictionary ih =>
      obtain ⟨first, value⟩ := node
      by_cases hfirst : first = key
      · rw [hfirst, dictionaryRemove_cons_self, dictionaryGet_cons_of_ne hne]
      · rw [dictionaryRemove_cons_of_ne hfirst]
        by_cases hother : other = first
        · rw [hother, dictionaryGet_cons_self, dictionaryGet_cons_self]
        · rw [dictionaryGet_cons_of_ne hother, dictionaryGet_cons_of_ne hother]
          exact ih

theorem nodup_dictionaryRemove (hnodup : (dictionary.map Prod.fst).Nodup) (key : κ) :
    ((dictionaryRemove dictionary key).map Prod.fst).Nodup :=
  hnodup.sublist (List.eraseP_sublist.map Prod.fst)

theorem dictionaryGet_dictionaryRemove_self (hnodup : (dictionary.map Prod.fst).Nodup) (key : κ) :
    dictionaryGet (dictionaryRemove dictionary key) key = none := by
  induction dictionary with
  | nil => rfl
  | cons node dictionary ih =>
      obtain ⟨first, value⟩ := node
      obtain ⟨hnew, hrest⟩ := List.nodup_cons.mp hnodup
      by_cases hfirst : first = key
      · rw [hfirst, dictionaryRemove_cons_self]
        exact dictionaryGet_eq_none_iff.mpr (hfirst ▸ hnew)
      · rw [dictionaryRemove_cons_of_ne hfirst, dictionaryGet_cons_of_ne (Ne.symm hfirst)]
        exact ih hrest

theorem dictionaryGet_dictionaryPut_self (dictionary : List (κ × β)) (key : κ) (value : β) :
    dictionaryGet (dictionaryPut dictionary key value) key = some value :=
  dictionaryGet_cons_self _ _ _

theorem dictionaryGet_dictionaryPut_of_ne (hne : other ≠ key) :
    dictionaryGet (dictionaryPut dictionary key value) other = dictionaryGet dictionary other := by
  rw [dictionaryPut, dictionaryGet_cons_of_ne hne, dictionaryGet_dictionaryRemove_of_ne hne]

theorem nodup_dictionaryPut (hnodup : (dictionary.map Prod.fst).Nodup) (key : κ) (value : β) :
    ((dictionaryPut dictionary key value).map Prod.fst).Nodup := by
  have hgone := dictionaryGet_dictionaryRemove_self hnodup key
  exact List.nodup_cons.mpr
    ⟨dictionaryGet_eq_none_iff.mp hgone, nodup_dictionaryRemove hnodup key⟩

/-- A key that is there gets no second node. -/
theorem length_dictionaryPut (hget : dictionaryGet dictionary key = some value) (changed : β) :
    (dictionaryPut dictionary key changed).length = dictionary.length := by
  have hmem := mem_of_dictionaryGet hget
  rw [dictionaryPut, List.length_cons, dictionaryRemove,
    List.length_eraseP_of_mem hmem (decide_eq_true rfl)]
  exact Nat.sub_add_cancel (List.length_pos_of_mem hmem)

end SockMyPort.Commons
