/-
# Preferences

Elements compared by a rank, where one element may be favoured among those of its
rank. The comparison is total and transitive between distinct elements only, since
the favoured element does not stand before itself. In a list that is ordered by it
the first element is the best one.
-/

import Mathlib.Order.Lattice
import Mathlib.Data.List.Basic

namespace Library

variable {α β : Type*}

/-- A rank for every element, and at most one favoured element. -/
structure Preference (α β : Type*) where
  rank : α → β
  favoured : α → Prop
  unique : ∀ {first second : α}, favoured first → favoured second → first = second

namespace Preference

variable [LinearOrder β] {preference : Preference α β} {first second third : α}

/-- The first element may stand before the second. -/
def Before (preference : Preference α β) (first second : α) : Prop :=
  preference.rank first ≤ preference.rank second ∧
    (preference.rank first = preference.rank second → ¬ preference.favoured second)

theorem before_total (hne : first ≠ second) :
    preference.Before first second ∨ preference.Before second first := by
  rcases lt_trichotomy (preference.rank first) (preference.rank second) with hlt | heq | hlt
  · exact .inl ⟨hlt.le, fun heq => absurd heq hlt.ne⟩
  · by_cases hfavoured : preference.favoured second
    · exact .inr ⟨heq.ge, fun _ hfirst => hne (preference.unique hfirst hfavoured)⟩
    · exact .inl ⟨heq.le, fun _ => hfavoured⟩
  · exact .inr ⟨hlt.le, fun heq => absurd heq hlt.ne⟩

theorem before_trans (hfirst : preference.Before first second)
    (hsecond : preference.Before second third) : preference.Before first third := by
  refine ⟨hfirst.1.trans hsecond.1, fun heq => hsecond.2 ?_⟩
  exact le_antisymm hsecond.1 (heq.ge.trans hfirst.1)

/-- An element of a list whose rank is the least, and that is the favoured one if
the favoured one has this rank. -/
structure Best (preference : Preference α β) (list : List α) (best : α) : Prop where
  mem : best ∈ list
  least : ∀ other ∈ list, preference.rank best ≤ preference.rank other
  favoured : ∀ other ∈ list, preference.rank best = preference.rank other →
    preference.favoured other → best = other

/-- **An ordered list begins with the best element.** -/
theorem best_head {head : α} {rest : List α}
    (hordered : (head :: rest).Pairwise preference.Before) :
    preference.Best (head :: rest) head := by
  have hbefore : ∀ other ∈ rest, preference.Before head other := fun _ =>
    List.rel_of_pairwise_cons hordered
  refine ⟨List.mem_cons_self, fun other hmem => ?_, fun other hmem heq hfavoured => ?_⟩
  · rcases List.mem_cons.mp hmem with rfl | hrest
    · exact le_rfl
    · exact (hbefore other hrest).1
  · rcases List.mem_cons.mp hmem with rfl | hrest
    · rfl
    · exact absurd hfavoured ((hbefore other hrest).2 heq)

theorem Best.perm {list rearranged : List α} {best : α} (hbest : preference.Best list best)
    (hperm : list.Perm rearranged) : preference.Best rearranged best where
  mem := hperm.mem_iff.mp hbest.mem
  least other hmem := hbest.least other (hperm.mem_iff.mpr hmem)
  favoured other hmem := hbest.favoured other (hperm.mem_iff.mpr hmem)

end Preference

end Library
