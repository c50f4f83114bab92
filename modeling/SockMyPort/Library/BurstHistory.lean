/-
# Histories of service

A scheduler serves clients in bursts: a burst goes on while its client is served again and
again, and ends when the client says so. An observer beside a system writes down what every
step shows, here the lengths of the bursts of every client. An estimator revises a value once
for each burst that ends, so that the value is a function of the history. The exponential
average forgets the past at a fixed rate and stays among the lengths that it has seen.
-/

import Mathlib.Algebra.Order.Field.Basic
import Mathlib.Algebra.Order.Ring.Cast
import SockMyPort.Library.Runs

namespace Library

universe u v w

/-! ## Observers -/

namespace PartialStep

variable {σ : Type u} {ε : Type v} {ν : Type w} {step : PartialStep σ ε} {ok : σ → ε → Prop}

/-- The notes of an observer after some events, who adds to them at every step. -/
def notesAfter (step : PartialStep σ ε) (note : σ → ε → σ → ν → ν) : σ → List ε → ν → ν
  | _, [], notes => notes
  | state, event :: events, notes =>
      match step state event with
      | none => notes
      | some next => notesAfter step note next events (note state event next notes)

theorem notesAfter_cons {note : σ → ε → σ → ν → ν} {state next : σ} {event : ε}
    (hstep : step state event = some next) (events : List ε) (notes : ν) :
    step.notesAfter note state (event :: events) notes =
      step.notesAfter note next events (note state event next notes) := by
  rw [notesAfter, hstep]

/-- **The invariant rule with an observer.** What every allowed step preserves about the state
and the notes, every run preserves. -/
theorem Runs.invariant_notes {note : σ → ε → σ → ν → ν} (inv : σ → ν → Prop)
    (keep : ∀ {state event next notes}, inv state notes → ok state event →
      step state event = some next → inv next (note state event next notes))
    {start finish : σ} {events : List ε} {notes : ν} (hrun : step.Runs ok start events finish)
    (hstart : inv start notes) : inv finish (step.notesAfter note start events notes) := by
  induction hrun generalizing notes with
  | refl => exact hstart
  | head hok hstep _ ih =>
      rw [notesAfter_cons hstep]
      exact ih (keep hstart hok hstep)

end PartialStep

/-! ## Bursts -/

/-- What was seen of a client: the lengths of the bursts that ended, in order, and the length
of the one that goes on. -/
structure BurstHistory where
  ended : List ℕ
  current : ℕ
  deriving DecidableEq, Repr

namespace BurstHistory

/-- Nothing was seen yet. -/
def fresh : BurstHistory := ⟨[], 0⟩

/-- The burst ends. -/
def finish (history : BurstHistory) : BurstHistory := ⟨history.ended ++ [history.current], 0⟩

/-- The client is served some times. -/
def serve (history : BurstHistory) (times : ℕ) : BurstHistory :=
  { history with current := history.current + times }

/-- The length of the longest burst that ended. -/
def longest (history : BurstHistory) : ℕ := history.ended.foldr max 0

theorem le_longest {history : BurstHistory} {length : ℕ} (hmem : length ∈ history.ended) :
    length ≤ history.longest := by
  have hfold (lengths : List ℕ) (hmem : length ∈ lengths) : length ≤ lengths.foldr max 0 := by
    induction lengths with
    | nil => cases hmem
    | cons first lengths ih =>
        rcases List.mem_cons.mp hmem with rfl | hmem
        · exact le_max_left _ _
        · exact (ih hmem).trans (le_max_right _ _)
  exact hfold history.ended hmem

/-- No burst ended before its client was served. -/
def Served (history : BurstHistory) : Prop := ∀ length ∈ history.ended, 1 ≤ length

theorem served_fresh : fresh.Served := by
  intro length hmem
  cases hmem

theorem Served.serve {history : BurstHistory} (hserved : history.Served) (times : ℕ) :
    (history.serve times).Served := hserved

theorem Served.finish {history : BurstHistory} (hserved : history.Served)
    (hcurrent : 1 ≤ history.current) : history.finish.Served := by
  intro length hmem
  rcases List.mem_append.mp hmem with hmem | hmem
  · exact hserved length hmem
  · exact List.mem_singleton.mp hmem ▸ hcurrent

end BurstHistory

/-- The histories of all clients. -/
abbrev Histories (α : Type u) : Type u := α → BurstHistory

namespace Histories

variable {α : Type u} [DecidableEq α] {client other : α} {histories : Histories α}

/-- The clients on a list are served, one after the other. -/
def serve (histories : Histories α) (served : List α) : Histories α := fun client =>
  (histories client).serve (served.count client)

/-- The burst of a client ends. -/
def finish (histories : Histories α) (client : α) : Histories α :=
  Function.update histories client (histories client).finish

/-- A client enters, or enters again. -/
def enter (histories : Histories α) (client : α) : Histories α :=
  Function.update histories client .fresh

@[simp]
theorem serve_nil (histories : Histories α) : histories.serve [] = histories := rfl

theorem serve_append (histories : Histories α) (first second : List α) :
    histories.serve (first ++ second) = (histories.serve first).serve second := by
  funext client
  simp only [serve, BurstHistory.serve, List.count_append, Nat.add_assoc]

theorem serve_self (histories : Histories α) (client : α) :
    histories.serve [client] client = (histories client).serve 1 := by
  simp [serve]

theorem serve_of_ne (histories : Histories α) (hne : other ≠ client) :
    histories.serve [client] other = histories other := by
  simp [serve, BurstHistory.serve, Ne.symm hne]

@[simp]
theorem finish_self (histories : Histories α) (client : α) :
    histories.finish client client = (histories client).finish := Function.update_self ..

theorem finish_of_ne (histories : Histories α) (hne : other ≠ client) :
    histories.finish client other = histories other := Function.update_of_ne hne ..

@[simp]
theorem enter_self (histories : Histories α) (client : α) :
    histories.enter client client = .fresh := Function.update_self ..

theorem enter_of_ne (histories : Histories α) (hne : other ≠ client) :
    histories.enter client other = histories other := Function.update_of_ne hne ..

end Histories

/-! ## Estimators -/

/-- A value that is revised with the length of every burst that ends. -/
structure Estimator (β : Type u) where
  initial : β
  revise : ℕ → β → β

namespace Estimator

variable {β : Type u}

/-- The value after some bursts. -/
def estimate (estimator : Estimator β) (lengths : List ℕ) : β :=
  lengths.foldl (fun value length => estimator.revise length value) estimator.initial

@[simp]
theorem estimate_fresh (estimator : Estimator β) :
    estimator.estimate BurstHistory.fresh.ended = estimator.initial := rfl

/-- The end of a burst revises the value once. -/
theorem estimate_finish (estimator : Estimator β) (history : BurstHistory) :
    estimator.estimate history.finish.ended =
      estimator.revise history.current (estimator.estimate history.ended) := by
  simp only [estimate, BurstHistory.finish, List.foldl_append, List.foldl_cons, List.foldl_nil]

end Estimator

section ExponentialAverage

variable {R : Type u} [Field R] [LinearOrder R] [IsStrictOrderedRing R]
  {weight initial low high : R}

/-- The last burst counts with the weight, and everything before it with the rest. -/
def exponentialAverage (weight initial : R) : Estimator R where
  initial := initial
  revise length value := weight * length + (1 - weight) * value

/-- A weighted mean stays between the bounds of both numbers. -/
theorem weightedMean_mem_Icc {first second : R} (hweight : weight ∈ Set.Icc 0 1)
    (hfirst : first ∈ Set.Icc low high) (hsecond : second ∈ Set.Icc low high) :
    weight * first + (1 - weight) * second ∈ Set.Icc low high := by
  have hrest : 0 ≤ 1 - weight := sub_nonneg.mpr hweight.2
  have hsplit (bound : R) : weight * bound + (1 - weight) * bound = bound := by
    rw [← add_mul, add_sub_cancel, one_mul]
  constructor
  · calc low = weight * low + (1 - weight) * low := (hsplit low).symm
      _ ≤ weight * first + (1 - weight) * second :=
        add_le_add (mul_le_mul_of_nonneg_left hfirst.1 hweight.1)
          (mul_le_mul_of_nonneg_left hsecond.1 hrest)
  · calc weight * first + (1 - weight) * second
        ≤ weight * high + (1 - weight) * high :=
        add_le_add (mul_le_mul_of_nonneg_left hfirst.2 hweight.1)
          (mul_le_mul_of_nonneg_left hsecond.2 hrest)
      _ = high := hsplit high

/-- **The average stays among what it has seen**: the initial value and the lengths. -/
theorem exponentialAverage_mem_Icc {lengths : List ℕ} (hweight : weight ∈ Set.Icc 0 1)
    (hinitial : initial ∈ Set.Icc low high)
    (hlengths : ∀ length ∈ lengths, (length : R) ∈ Set.Icc low high) :
    (exponentialAverage weight initial).estimate lengths ∈ Set.Icc low high := by
  induction lengths generalizing initial with
  | nil => exact hinitial
  | cons length lengths ih =>
      have hrevised := weightedMean_mem_Icc hweight (hlengths length List.mem_cons_self) hinitial
      exact ih hrevised fun other hmem => hlengths other (List.mem_cons_of_mem _ hmem)

end ExponentialAverage

end Library
