/-
# Chains of a deterministic relation

Every element has at most one successor, so that the chain from an element ends, runs
round a cycle, or leads into a cycle from outside. The first two kinds are told apart
from the third one here: along a chain the kind does not change for the worse, and an
element of a cycle is reached from everything that it reaches.
-/

import Mathlib.Logic.Relation

namespace Library

universe u

open Relation

variable {α : Type u} {r : α → α → Prop} {a b c : α}

/-- The element lies on a cycle. -/
def OnCycle (r : α → α → Prop) (a : α) : Prop := TransGen r a a

/-- The chain from the element ends. -/
def ChainEnds (r : α → α → Prop) (a : α) : Prop := ∃ b, ReflTransGen r a b ∧ ∀ c, ¬ r b c

/-- Both elements lie on one cycle. -/
def SameCycle (r : α → α → Prop) (a b : α) : Prop := TransGen r a b ∧ TransGen r b a

/-- The chain does not lead into a cycle from outside. -/
def Settles (r : α → α → Prop) (a : α) : Prop := OnCycle r a ∨ ChainEnds r a

/-- The only successor is on every way to elsewhere. -/
theorem reflTransGen_of_transGen (hdet : Relator.RightUnique r) (hstep : r a b)
    (hpath : TransGen r a c) : ReflTransGen r b c := by
  obtain ⟨next, hnext, hrest⟩ := TransGen.head'_iff.mp hpath
  rw [hdet hstep hnext]
  exact hrest

/-- From a cycle one comes back. -/
theorem OnCycle.returns (hdet : Relator.RightUnique r) (hcycle : OnCycle r a)
    (hreach : ReflTransGen r a b) : ReflTransGen r b a := by
  induction hreach with
  | refl => exact .refl
  | tail _ hstep ih =>
      rcases reflTransGen_iff_eq_or_transGen.mp ih with heq | hback
      · subst heq
        exact reflTransGen_of_transGen hdet hstep hcycle
      · exact reflTransGen_of_transGen hdet hstep hback

theorem OnCycle.of_reach (hdet : Relator.RightUnique r) (hcycle : OnCycle r a)
    (hreach : ReflTransGen r a b) : OnCycle r b :=
  TransGen.trans_right (hcycle.returns hdet hreach) (TransGen.trans_left hcycle hreach)

theorem ChainEnds.of_reach (hdet : Relator.RightUnique r) (hends : ChainEnds r a)
    (hreach : ReflTransGen r a b) : ChainEnds r b := by
  obtain ⟨last, hlast, hstop⟩ := hends
  refine ⟨last, ?_, hstop⟩
  rcases ReflTransGen.total_of_right_unique hdet hlast hreach with hbefore | hafter
  · rcases ReflTransGen.cases_head hbefore with heq | ⟨next, hnext, -⟩
    · rw [heq]
    · exact absurd hnext (hstop next)
  · exact hafter

theorem ChainEnds.not_onCycle (hdet : Relator.RightUnique r) (hends : ChainEnds r a) :
    ¬ OnCycle r a := by
  intro hcycle
  obtain ⟨last, hlast, hstop⟩ := hends
  obtain ⟨next, hnext, -⟩ := TransGen.head'_iff.mp (hcycle.of_reach hdet hlast)
  exact hstop next hnext

theorem Settles.of_reach (hdet : Relator.RightUnique r) (hsettles : Settles r a)
    (hreach : ReflTransGen r a b) : Settles r b := by
  rcases hsettles with hcycle | hends
  · exact .inl (hcycle.of_reach hdet hreach)
  · exact .inr (hends.of_reach hdet hreach)

/-- From an element of a cycle, what is reached is what is on the same cycle. -/
theorem OnCycle.sameCycle_iff (hdet : Relator.RightUnique r) (hcycle : OnCycle r a) :
    SameCycle r a b ↔ ReflTransGen r a b := by
  constructor
  · intro hsame
    exact hsame.1.to_reflTransGen
  · intro hreach
    exact ⟨TransGen.trans_left hcycle hreach,
      TransGen.trans_right (hcycle.returns hdet hreach) hcycle⟩

/-- An element of a cycle has a last one before itself. -/
theorem OnCycle.exists_last (hdet : Relator.RightUnique r) (hcycle : OnCycle r a) (hstep : r a b) :
    ∃ last, ReflTransGen r b last ∧ r last a := by
  obtain ⟨last, hlast, hclose⟩ := TransGen.tail'_iff.mp hcycle
  rcases reflTransGen_iff_eq_or_transGen.mp hlast with heq | hpath
  · subst heq
    rw [hdet hstep hclose]
    exact ⟨last, .refl, hclose⟩
  · exact ⟨last, reflTransGen_of_transGen hdet hstep hpath, hclose⟩

end Library
