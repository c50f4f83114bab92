/-
# Rotations

A queue out of which the first suitable element is taken and put at the end, while new
elements enter at the front. The elements that were taken are logged, the latest first;
the age of an element is its place in the log, and an element that was never taken is
older than all others. The queue is ordered by age, the oldest first, and elements that
do not suit keep their place.
-/

import Mathlib.Data.List.Nodup

namespace Library

universe u

variable {α : Type u} [DecidableEq α] {queue log : List α} {element other : α}
  {suits : α → Bool}

/-- How many elements were taken since this one was; all of them if it never was. -/
def age (log : List α) (element : α) : ℕ := log.idxOf element

/-- The queue has no repetition and is ordered by age, and who was taken is in it. -/
structure Rotation (queue log : List α) : Prop where
  nodup : queue.Nodup
  ordered : queue.Pairwise fun first second => age log second ≤ age log first
  logged : ∀ taken ∈ log, taken ∈ queue

theorem age_le_length (log : List α) (element : α) : age log element ≤ log.length :=
  List.idxOf_le_length

theorem age_of_not_mem (hnever : element ∉ log) : age log element = log.length :=
  List.idxOf_of_notMem hnever

theorem age_cons_self (log : List α) (element : α) : age (element :: log) element = 0 :=
  List.idxOf_cons_self

theorem age_cons_of_ne (hne : other ≠ element) :
    age (element :: log) other = age log other + 1 :=
  List.idxOf_cons_ne _ hne.symm

theorem rotation_nil : Rotation ([] : List α) [] :=
  ⟨List.nodup_nil, List.Pairwise.nil, fun _ hmem => hmem⟩

/-- A new element enters at the front: it is as old as any. -/
theorem Rotation.enter (hrotation : Rotation queue log) (hnew : element ∉ queue) :
    Rotation (element :: queue) log where
  nodup := List.nodup_cons.mpr ⟨hnew, hrotation.nodup⟩
  ordered := by
    have hage : age log element = log.length :=
      age_of_not_mem fun hmem => hnew (hrotation.logged element hmem)
    exact List.pairwise_cons.mpr ⟨fun other _ => hage ▸ age_le_length log other,
      hrotation.ordered⟩
  logged taken hmem := List.mem_cons_of_mem _ (hrotation.logged taken hmem)

omit [DecidableEq α] in
/-- The queue around the first element that suits. -/
theorem exists_split_of_find (hfind : queue.find? suits = some element) :
    ∃ before after, queue = before ++ element :: after ∧ (∀ other ∈ before, ¬ suits other = true) ∧
      queue.eraseP suits = before ++ after := by
  obtain ⟨hsuits, before, after, hqueue, hbefore⟩ := List.find?_eq_some_iff_append.mp hfind
  refine ⟨before, after, hqueue, fun other hmem => by simpa using hbefore other hmem, ?_⟩
  rw [hqueue, List.eraseP_append_right _ fun other hmem => by simpa using hbefore other hmem,
    List.eraseP_cons_of_pos hsuits]

omit [DecidableEq α] in
/-- What is found first and dropped first are the same. -/
theorem perm_eraseP_append (hfind : queue.find? suits = some element) :
    (queue.eraseP suits ++ [element]).Perm queue := by
  obtain ⟨before, after, rfl, -, herase⟩ := exists_split_of_find hfind
  rw [herase, List.append_assoc]
  exact List.perm_append_comm.append_left before

/-- **A turn**: the first suitable element goes to the end, as the youngest. -/
theorem Rotation.turn (hrotation : Rotation queue log)
    (hfind : queue.find? suits = some element) :
    Rotation (queue.eraseP suits ++ [element]) (element :: log) := by
  have hperm := perm_eraseP_append hfind
  obtain ⟨before, after, rfl, -, herase⟩ := exists_split_of_find hfind
  rw [herase] at hperm
  have hnodup := hperm.nodup_iff.mpr hrotation.nodup
  have hother : ∀ other ∈ before ++ after, other ≠ element := by
    rintro other hmem rfl
    exact List.disjoint_of_nodup_append hnodup hmem List.mem_cons_self
  have hrest : (before ++ after).Pairwise fun first second => age log second ≤ age log first := by
    refine hrotation.ordered.sublist ?_
    exact (List.sublist_cons_self element after).append_left before
  rw [herase]
  refine ⟨hnodup, List.pairwise_append.mpr ⟨?_, List.pairwise_singleton _ _, ?_⟩, ?_⟩
  · refine hrest.imp_of_mem fun hfirst hsecond hle => ?_
    rw [age_cons_of_ne (hother _ hfirst), age_cons_of_ne (hother _ hsecond)]
    exact Nat.succ_le_succ hle
  · intro first _ last hlast
    rw [List.mem_singleton.mp hlast, age_cons_self]
    exact Nat.zero_le _
  · intro taken hmem
    refine hperm.mem_iff.mpr ?_
    rcases List.mem_cons.mp hmem with rfl | hmem
    · exact List.mem_append_right _ List.mem_cons_self
    · exact hrotation.logged taken hmem

/-- **The element that is taken is the oldest one** of those that suit. -/
theorem Rotation.oldest (hrotation : Rotation queue log)
    (hfind : queue.find? suits = some element) (hmem : other ∈ queue)
    (hsuits : suits other = true) : age log other ≤ age log element := by
  obtain ⟨before, after, rfl, hbefore, -⟩ := exists_split_of_find hfind
  rcases List.mem_append.mp hmem with hearlier | hlater
  · exact absurd hsuits (hbefore other hearlier)
  · rcases List.mem_cons.mp hlater with rfl | hlater
    · exact Nat.le_refl _
    · exact List.rel_of_pairwise_cons (List.pairwise_append.mp hrotation.ordered).2.1 hlater

end Library
