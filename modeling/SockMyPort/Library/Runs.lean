/-
# Guarded runs of partial step functions

A deterministic program is a partial function from a state and an event to the
next state; `none` means that the program does not survive the event. A run is
a list of events, and a guarded run additionally satisfies a predicate at each
of its steps. The invariant rule packages the only induction over runs that the
developments built on this module need.
-/

import Mathlib.Algebra.GroupWithZero.Nat
import Mathlib.Logic.Basic
import Mathlib.Data.List.Basic
import Mathlib.Algebra.BigOperators.Group.List.Basic

namespace Library

universe u v

variable {σ : Type u} {ε : Type v}

/-- One step of a program that may stop: a state and an event determine the
next state, or nothing. -/
abbrev PartialStep (σ : Type u) (ε : Type v) := σ → ε → Option σ

namespace PartialStep

/-- `step.Runs ok start events finish`: the events lead from `start` to
`finish`, and every step taken satisfies `ok`. -/
inductive Runs (step : PartialStep σ ε) (ok : σ → ε → Prop) : σ → List ε → σ → Prop
  | refl (state : σ) : Runs step ok state [] state
  | head {start middle finish : σ} {event : ε} {events : List ε}
      (hok : ok start event) (hstep : step start event = some middle)
      (rest : Runs step ok middle events finish) :
      Runs step ok start (event :: events) finish

/-- A run whose steps satisfy no condition. -/
abbrev FreeRuns (step : PartialStep σ ε) : σ → List ε → σ → Prop :=
  step.Runs fun _ _ => True

/-- The states that some guarded run reaches. -/
def Reaches (step : PartialStep σ ε) (ok : σ → ε → Prop) (start finish : σ) : Prop :=
  ∃ events, step.Runs ok start events finish

/-- Execute a list of events. -/
def execute (step : PartialStep σ ε) : σ → List ε → Option σ
  | state, [] => some state
  | state, event :: events => (step state event).bind fun next => execute step next events

variable {step : PartialStep σ ε} {ok : σ → ε → Prop}

theorem Runs.single {start finish : σ} {event : ε} (hok : ok start event)
    (hstep : step start event = some finish) : step.Runs ok start [event] finish :=
  .head hok hstep (.refl finish)

theorem runs_cons_iff {start finish : σ} {event : ε} {events : List ε} :
    step.Runs ok start (event :: events) finish ↔
      ok start event ∧ ∃ middle, step start event = some middle ∧
        step.Runs ok middle events finish := by
  constructor
  · rintro (_ | ⟨hok, hstep, hrest⟩)
    exact ⟨hok, _, hstep, hrest⟩
  · rintro ⟨hok, middle, hstep, hrest⟩
    exact .head hok hstep hrest

theorem Runs.append {start middle finish : σ} {first second : List ε}
    (hfirst : step.Runs ok start first middle) (hsecond : step.Runs ok middle second finish) :
    step.Runs ok start (first ++ second) finish := by
  induction hfirst with
  | refl => exact hsecond
  | head hok hstep _ ih => exact .head hok hstep (ih hsecond)

/-- Weakening the condition keeps a run. -/
theorem Runs.mono {ok' : σ → ε → Prop} (himp : ∀ state event, ok state event → ok' state event)
    {start finish : σ} {events : List ε} (hrun : step.Runs ok start events finish) :
    step.Runs ok' start events finish := by
  induction hrun with
  | refl => exact .refl _
  | head hok hstep _ ih => exact .head (himp _ _ hok) hstep ih

/-- **The invariant rule.** What every allowed step preserves, every run
preserves. -/
theorem Runs.invariant (inv : σ → Prop)
    (keep : ∀ {state event next}, inv state → ok state event →
      step state event = some next → inv next)
    {start finish : σ} {events : List ε} (hrun : step.Runs ok start events finish)
    (hstart : inv start) : inv finish := by
  induction hrun with
  | refl => exact hstart
  | head hok hstep _ ih => exact ih (keep hstart hok hstep)

/-- The invariant rule with an account: what every allowed step preserves while it adds the
weight of its event, every run preserves. -/
theorem Runs.invariant_sum (weight : ε → ℕ) (inv : ℕ → σ → Prop)
    (keep : ∀ {total state event next}, inv total state → ok state event →
      step state event = some next → inv (total + weight event) next)
    {total : ℕ} {start finish : σ} {events : List ε} (hrun : step.Runs ok start events finish)
    (hstart : inv total start) : inv (total + (events.map weight).sum) finish := by
  induction hrun generalizing total with
  | refl => exact hstart
  | head hok hstep _ ih =>
      rw [List.map_cons, List.sum_cons, ← Nat.add_assoc]
      exact ih (keep hstart hok hstep)

theorem Reaches.refl (state : σ) : step.Reaches ok state state := ⟨[], .refl state⟩

/-- Executing events produces an unguarded run. -/
theorem runs_of_execute {start finish : σ} {events : List ε}
    (hexec : step.execute start events = some finish) : step.FreeRuns start events finish := by
  induction events generalizing start with
  | nil =>
      cases hexec
      exact .refl _
  | cons event events ih =>
      obtain ⟨next, hstep, hrest⟩ := Option.bind_eq_some_iff.mp hexec
      exact .head trivial hstep (ih hrest)

/-- The step function that refuses the steps that a condition forbids. -/
def guarded (step : PartialStep σ ε) (ok : σ → ε → Bool) : PartialStep σ ε := fun state event =>
  if ok state event then step state event else none

/-- The runs of the refusing step function are guarded runs. -/
theorem runs_of_guarded {ok : σ → ε → Bool} {start finish : σ} {events : List ε}
    (hrun : (step.guarded ok).FreeRuns start events finish) :
    step.Runs (fun state event => ok state event = true) start events finish := by
  induction hrun with
  | refl => exact .refl _
  | head _ hstep _ ih =>
      simp only [guarded] at hstep
      split at hstep
      · exact .head ‹_› hstep ih
      · cases hstep

/-- A loop over a list is an execution. -/
theorem execute_eq_foldlM (step : PartialStep σ ε) (start : σ) (events : List ε) :
    step.execute start events = events.foldlM step start := by
  induction events generalizing start with
  | nil => rfl
  | cons event events ih =>
      simp only [execute, List.foldlM_cons, Option.bind_eq_bind]
      exact congrArg _ (funext ih)

/-- What every turn of a loop preserves, the loop preserves. -/
theorem foldlM_invariant (inv : σ → Prop)
    (keep : ∀ {state event next}, inv state → step state event = some next → inv next)
    {start finish : σ} {events : List ε} (hfold : events.foldlM step start = some finish)
    (hstart : inv start) : inv finish :=
  (runs_of_execute ((execute_eq_foldlM step start events).trans hfold)).invariant inv
    (fun hinv _ hstep => keep hinv hstep) hstart

/-- Every step of the execution of some events satisfies the condition. -/
def allows (step : PartialStep σ ε) (ok : σ → ε → Bool) (start : σ) (events : List ε) : Bool :=
  ((step.guarded ok).execute start events).isSome

/-- An execution that is allowed is a guarded run. -/
theorem runs_of_allows {ok : σ → ε → Bool} {start finish : σ} {events : List ε}
    (hallows : step.allows ok start events = true)
    (hexec : step.execute start events = some finish) :
    step.Runs (fun state event => ok state event = true) start events finish := by
  induction events generalizing start with
  | nil =>
      cases hexec
      exact .refl _
  | cons event events ih =>
      obtain ⟨next, hstep, hrest⟩ := Option.bind_eq_some_iff.mp hexec
      simp only [allows, execute, guarded] at hallows
      split at hallows
      · rw [hstep] at hallows
        exact .head ‹_› hstep (ih hallows hrest)
      · cases hallows

/-- An event that is allowed is allowed where the events before it lead. -/
theorem ok_of_allows_append {ok : σ → ε → Bool} {start middle : σ} {event : ε}
    {first rest : List ε} (hallows : step.allows ok start (first ++ event :: rest) = true)
    (hfirst : step.execute start first = some middle) : ok middle event = true := by
  induction first generalizing start with
  | nil =>
      cases hfirst
      simp only [allows, List.nil_append, execute, guarded] at hallows
      split at hallows
      · assumption
      · cases hallows
  | cons other first ih =>
      obtain ⟨next, hstep, hrest⟩ := Option.bind_eq_some_iff.mp hfirst
      simp only [allows, List.cons_append, execute, guarded] at hallows
      split at hallows
      · rw [hstep] at hallows
        exact ih hallows hrest
      · cases hallows

/-- Executions compose. -/
theorem execute_append {start middle : σ} {first : List ε} (second : List ε)
    (hfirst : step.execute start first = some middle) :
    step.execute start (first ++ second) = step.execute middle second := by
  induction first generalizing start with
  | nil =>
      cases hfirst
      rfl
  | cons event first ih =>
      obtain ⟨next, hstep, hrest⟩ := Option.bind_eq_some_iff.mp hfirst
      simp only [List.cons_append, execute, hstep, Option.bind_some]
      exact ih hrest

/-- Executing events and checking the final state exhibits a run. -/
theorem exists_run_of_execute (step : PartialStep σ ε) (start : σ) (events : List ε)
    (check : σ → Bool)
    (hcheck : (step.execute start events).any check = true) :
    ∃ finish, step.FreeRuns start events finish ∧ check finish = true := by
  cases hexec : step.execute start events with
  | none =>
      rw [hexec] at hcheck
      cases hcheck
  | some finish =>
      rw [hexec] at hcheck
      exact ⟨finish, runs_of_execute hexec, hcheck⟩

end PartialStep

end Library
