/-
# Disjoint runs on a line

Items are laid out on the natural line: an item occupies the run of `len item`
places that begins at `start item`. A list of items is separated when every
item ends before the following ones begin. This module relates separation to
pairwise disjointness, bounds the total length of a separated list by the space
it lies in, and describes the first place where a new run of a given length
fits.
-/

import Mathlib.Algebra.GroupWithZero.Nat
import Mathlib.Data.List.Perm.Basic
import Mathlib.Algebra.BigOperators.Group.List.Basic
import Mathlib.Tactic.Common

namespace Library

universe u

variable {α : Type u} (start len : α → ℕ)

/-- Two runs share no place. -/
def Apart (first second : α) : Prop :=
  start first + len first ≤ start second ∨ start second + len second ≤ start first

/-- Every item ends before the following ones begin. -/
def Separated (items : List α) : Prop :=
  items.Pairwise fun first second => start first + len first ≤ start second

/-- The number of places that the items occupy together. -/
def occupied (items : List α) : ℕ := (items.map len).sum

variable {start len}

theorem Apart.symm {first second : α} (h : Apart start len first second) :
    Apart start len second first := h.elim .inr .inl

instance : Std.Symm (Apart start len) := ⟨fun _ _ h => h.symm⟩

@[simp]
theorem occupied_nil : occupied len ([] : List α) = 0 := rfl

@[simp]
theorem occupied_cons (item : α) (items : List α) :
    occupied len (item :: items) = len item + occupied len items := by
  simp [occupied]

@[simp]
theorem occupied_append (first second : List α) :
    occupied len (first ++ second) = occupied len first + occupied len second := by
  simp [occupied]

theorem occupied_perm {first second : List α} (h : first.Perm second) :
    occupied len first = occupied len second :=
  (h.map len).sum_eq

theorem occupied_le_occupied {longer : α → ℕ} {items : List α}
    (h : ∀ item ∈ items, len item ≤ longer item) : occupied len items ≤ occupied longer items := by
  induction items with
  | nil => exact Nat.le_refl _
  | cons item items ih =>
      rw [occupied_cons, occupied_cons]
      exact Nat.add_le_add (h item List.mem_cons_self)
        (ih fun other hmem => h other (List.mem_cons_of_mem _ hmem))

theorem occupied_le_of_sublist {first second : List α} (h : first.Sublist second) :
    occupied len first ≤ occupied len second := by
  induction h with
  | slnil => exact Nat.le_refl _
  | cons item _ ih =>
      rw [occupied_cons]
      exact Nat.le_add_left_of_le ih
  | cons_cons item _ ih =>
      rw [occupied_cons, occupied_cons]
      exact Nat.add_le_add_left ih _

theorem Separated.apart {items : List α} (h : Separated start len items) :
    items.Pairwise (Apart start len) :=
  List.Pairwise.imp .inl h

/-- Separation of a list ordered by the beginnings of its runs is pairwise
disjointness of its runs. -/
theorem separated_of_sorted {items : List α}
    (hsorted : items.Pairwise fun first second => start first ≤ start second)
    (hapart : items.Pairwise (Apart start len)) (hpos : ∀ item ∈ items, 0 < len item) :
    Separated start len items := by
  have hboth := hsorted.and hapart
  refine List.Pairwise.imp_of_mem (fun {first second} _ hsecond h => ?_) hboth
  obtain ⟨hle, hends | hends⟩ := h
  · exact hends
  · have := hpos second hsecond
    omega

/-- Separated items that lie between two places occupy at most the distance. -/
theorem Separated.occupied_le {items : List α} (h : Separated start len items) {low high : ℕ}
    (hle : low ≤ high) (hlow : ∀ item ∈ items, low ≤ start item)
    (hhigh : ∀ item ∈ items, start item + len item ≤ high) :
    occupied len items + low ≤ high := by
  induction items generalizing low with
  | nil => simpa using hle
  | cons item items ih =>
      obtain ⟨hhead, htail⟩ := List.pairwise_cons.mp h
      have hend := hhigh item (by simp)
      have hbegin := hlow item (by simp)
      have hrest := ih htail hend hhead fun other hother => hhigh other (by simp [hother])
      simp only [occupied_cons]
      omega

/-- Adding a run that is disjoint from all others keeps a list pairwise
disjoint, wherever it is inserted. -/
theorem pairwise_apart_of_perm_cons {item : α} {items result : List α}
    (hperm : result.Perm (item :: items)) (hapart : items.Pairwise (Apart start len))
    (hnew : ∀ other ∈ items, Apart start len item other) : result.Pairwise (Apart start len) :=
  (List.pairwise_cons.mpr ⟨hnew, hapart⟩).perm hperm.symm fun h => h.symm

/-- In a separated list, the last item ends last. -/
theorem Separated.end_le_getLast {items : List α} (h : Separated start len items)
    (hne : items ≠ []) {item : α} (hmem : item ∈ items) :
    start item + len item ≤ start (items.getLast hne) + len (items.getLast hne) := by
  rcases List.mem_iff_append.mp hmem with ⟨before, after, rfl⟩
  cases hlast : after.getLast? with
  | none =>
      obtain rfl := List.getLast?_eq_none_iff.mp hlast
      simp
  | some last =>
      have hafter : after ≠ [] := by rintro rfl; simp at hlast
      have hmemLast : last ∈ after := List.mem_of_getLast? hlast
      have heq : (before ++ item :: after).getLast hne = last := by
        rw [List.getLast_append_of_ne_nil _ (by simp), List.getLast_cons hafter]
        exact (List.getLast_eq_iff_getLast?_eq_some hafter).mpr hlast
      have hpair := (List.pairwise_append.mp h).2.1
      have hends := (List.pairwise_cons.mp hpair).1 last hmemLast
      rw [heq]
      omega

end Library
