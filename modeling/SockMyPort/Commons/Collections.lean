/-
# Collections of the commons library

`t_list` is a list. `t_dictionary` is an association list with one node for
each key. Of `list_sort` only its documented behaviour is used: it returns a
permutation, and the permutation is ordered whenever the comparator is a total
preorder. The sort is therefore a parameter, bundled with these two facts.
-/

import Mathlib.Data.List.Sort

namespace SockMyPort.Commons

/-- `list_sort`, with what its documentation promises. -/
structure ListSort where
  /-- The sorting function. The comparator says that its first argument may
  stand before its second. -/
  listSort : {α : Type} → (α → α → Bool) → List α → List α
  /-- Sorting rearranges the list. -/
  perm : ∀ {α : Type} (comparator : α → α → Bool) (list : List α),
    (listSort comparator list).Perm list
  /-- A total preorder is respected. -/
  pairwise : ∀ {α : Type} (comparator : α → α → Bool) (list : List α),
    (∀ a b, comparator a b || comparator b a) →
    (∀ a b c, comparator a b → comparator b c → comparator a c) →
    (listSort comparator list).Pairwise fun a b => comparator a b

/-- Insertion sort behaves as the library documents. -/
def insertionListSort : ListSort where
  listSort comparator list := list.insertionSort fun a b => comparator a b = true
  perm comparator list := list.perm_insertionSort _
  pairwise comparator list htotal htrans :=
    letI : Std.Total fun a b => comparator a b = true :=
      ⟨fun a b => by simpa using htotal a b⟩
    letI : IsTrans _ fun a b => comparator a b = true := ⟨htrans⟩
    list.pairwise_insertionSort _

/-- A list of distinct elements is ordered whenever the comparator is total and
transitive between distinct elements of it: a sort does not compare an element with
itself. -/
def ListSort.OrdersDistinct (sort : ListSort) : Prop :=
  ∀ {α : Type} (comparator : α → α → Bool) (list : List α), list.Nodup →
    (∀ a ∈ list, ∀ b ∈ list, a ≠ b → comparator a b || comparator b a) →
    (∀ a ∈ list, ∀ b ∈ list, ∀ c ∈ list, comparator a b → comparator b c → comparator a c) →
    (sort.listSort comparator list).Pairwise fun a b => comparator a b

section InsertionSort

variable {α : Type} {r : α → α → Prop} [DecidableRel r]

theorem pairwise_orderedInsert_of_distinct {inserted : α} {list : List α}
    (hnew : inserted ∉ list)
    (htotal : ∀ b ∈ list, inserted ≠ b → r inserted b ∨ r b inserted)
    (htrans : ∀ b ∈ list, ∀ c ∈ list, r inserted b → r b c → r inserted c)
    (hordered : list.Pairwise r) : (list.orderedInsert r inserted).Pairwise r := by
  induction list with
  | nil => exact List.pairwise_singleton _ _
  | cons head rest ih =>
      obtain ⟨hhead, hrest⟩ := List.pairwise_cons.mp hordered
      by_cases hbefore : r inserted head
      · rw [List.orderedInsert_cons_of_le r rest hbefore]
        refine List.pairwise_cons.mpr ⟨fun other hother => ?_, hordered⟩
        rcases List.mem_cons.mp hother with rfl | hother
        · exact hbefore
        · exact htrans head List.mem_cons_self other (List.mem_cons_of_mem _ hother) hbefore
            (hhead other hother)
      · rw [List.orderedInsert_of_not_le r rest hbefore]
        have hne : inserted ≠ head := fun heq => hnew (heq ▸ List.mem_cons_self)
        have hafter : r head inserted :=
          (htotal head List.mem_cons_self hne).resolve_left hbefore
        refine List.pairwise_cons.mpr ⟨fun other hother => ?_, ?_⟩
        · rcases List.mem_orderedInsert r |>.mp hother with rfl | hother
          · exact hafter
          · exact hhead other hother
        · exact ih (fun hmem => hnew (List.mem_cons_of_mem _ hmem))
            (fun b hb => htotal b (List.mem_cons_of_mem _ hb))
            (fun b hb c hc => htrans b (List.mem_cons_of_mem _ hb) c (List.mem_cons_of_mem _ hc))
            hrest

theorem pairwise_insertionSort_of_distinct {list : List α} (hnodup : list.Nodup)
    (htotal : ∀ a ∈ list, ∀ b ∈ list, a ≠ b → r a b ∨ r b a)
    (htrans : ∀ a ∈ list, ∀ b ∈ list, ∀ c ∈ list, r a b → r b c → r a c) :
    (list.insertionSort r).Pairwise r := by
  induction list with
  | nil => exact List.Pairwise.nil
  | cons head rest ih =>
      obtain ⟨hhead, hrest⟩ := List.nodup_cons.mp hnodup
      have hmem : ∀ {other}, other ∈ rest.insertionSort r → other ∈ head :: rest := fun hother =>
        List.mem_cons_of_mem _ ((List.perm_insertionSort r rest).mem_iff.mp hother)
      refine pairwise_orderedInsert_of_distinct
        (fun hother => hhead ((List.perm_insertionSort r rest).mem_iff.mp hother))
        (fun b hb => htotal head List.mem_cons_self b (hmem hb))
        (fun b hb c hc => htrans head List.mem_cons_self b (hmem hb) c (hmem hc)) ?_
      exact ih hrest
        (fun a ha b hb => htotal a (List.mem_cons_of_mem _ ha) b (List.mem_cons_of_mem _ hb))
        (fun a ha b hb c hc => htrans a (List.mem_cons_of_mem _ ha) b (List.mem_cons_of_mem _ hb)
          c (List.mem_cons_of_mem _ hc))

end InsertionSort

theorem ordersDistinct_insertionListSort : insertionListSort.OrdersDistinct :=
  fun _ _ hnodup htotal htrans => pairwise_insertionSort_of_distinct hnodup
    (fun a ha b hb hne => by simpa using htotal a ha b hb hne) htrans

/-- `list_remove_by_condition`: drop the first element that satisfies it. -/
abbrev listRemoveByCondition {α : Type} (list : List α) (condition : α → Bool) : List α :=
  list.eraseP condition

section Dictionary

variable {κ β : Type} [DecidableEq κ]

/-- `dictionary_get`. -/
def dictionaryGet (dictionary : List (κ × β)) (key : κ) : Option β :=
  (dictionary.find? fun node => node.1 = key).map Prod.snd

/-- `dictionary_has_key`. -/
def dictionaryHasKey (dictionary : List (κ × β)) (key : κ) : Bool :=
  dictionary.any fun node => node.1 = key

/-- `dictionary_remove`, without the value that it returns. -/
def dictionaryRemove (dictionary : List (κ × β)) (key : κ) : List (κ × β) :=
  dictionary.eraseP fun node => node.1 = key

/-- `dictionary_put`: replace the value of a key or add a node for it. -/
def dictionaryPut (dictionary : List (κ × β)) (key : κ) (value : β) : List (κ × β) :=
  (key, value) :: dictionaryRemove dictionary key

end Dictionary

end SockMyPort.Commons
