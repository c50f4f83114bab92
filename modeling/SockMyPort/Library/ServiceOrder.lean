/-
# The order of service

A line of clients of which only the first is served. Between two services clients may
leave the line from anywhere, and nobody enters it: the line is what is in front of a
client that waits. What is served then falls into turns, one after the other in the order
of the line.
-/

import Mathlib.Data.List.Basic
import Mathlib.Data.List.Flatten

namespace Library

universe u

variable {α : Type u}

/-! ## In front of a client -/

section InFront

variable [DecidableEq α] {client other : α} {queue before after others : List α}

/-- The clients that come before a client, or all of them when it is not there. -/
def inFront (client : α) (queue : List α) : List α := queue.takeWhile fun other => other ≠ client

theorem inFront_cons_self : inFront client (client :: queue) = [] := by
  simp [inFront]

theorem inFront_cons_of_ne (hne : other ≠ client) :
    inFront client (other :: queue) = other :: inFront client queue := by
  simp [inFront, hne]

/-- Who comes later is not in front. -/
theorem inFront_append_of_mem (hmem : client ∈ queue) :
    inFront client (queue ++ others) = inFront client queue := by
  induction queue with
  | nil => cases hmem
  | cons other queue ih =>
      by_cases hsame : other = client
      · rw [hsame, List.cons_append, inFront_cons_self, inFront_cons_self]
      · have hlater := (List.mem_cons.mp hmem).resolve_left (Ne.symm hsame)
        rw [List.cons_append, inFront_cons_of_ne hsame, inFront_cons_of_ne hsame, ih hlater]

/-- When others leave, nobody gets in front. -/
theorem inFront_sublist (hsub : after.Sublist before) (honce : before.count client ≤ 1)
    (hmem : client ∈ after) : (inFront client after).Sublist (inFront client before) := by
  induction hsub with
  | slnil => cases hmem
  | @cons after before other hsub ih =>
      by_cases hsame : other = client
      · have htwo := List.count_pos_iff.mpr (hsub.subset hmem)
        rw [hsame, List.count_cons_self] at honce
        omega
      · rw [List.count_cons_of_ne hsame] at honce
        rw [inFront_cons_of_ne hsame]
        exact (ih honce hmem).cons other
  | @cons_cons after before other hsub ih =>
      by_cases hsame : other = client
      · rw [hsame, inFront_cons_self, inFront_cons_self]
      · rw [List.count_cons_of_ne hsame] at honce
        have hlater := (List.mem_cons.mp hmem).resolve_left (Ne.symm hsame)
        rw [inFront_cons_of_ne hsame, inFront_cons_of_ne hsame]
        exact (ih honce hlater).cons_cons other

end InFront

/-! ## Service -/

/-- `Serves line served rest`: the services lead from one line to another. -/
inductive Serves : List α → List α → List α → Prop
  | refl (line : List α) : Serves line [] line
  | leave {line served rest remaining : List α} (before : Serves line served rest)
      (hsub : remaining.Sublist rest) : Serves line served remaining
  | serve {line served rest : List α} {first : α} (before : Serves line served (first :: rest)) :
      Serves line (served ++ [first]) (first :: rest)

namespace Serves

variable {line served rest : List α}

theorem trans {more final : List α} (hfirst : Serves line served rest)
    (hsecond : Serves rest more final) : Serves line (served ++ more) final := by
  induction hsecond with
  | refl =>
      rw [List.append_nil]
      exact hfirst
  | leave _ hsub ih => exact .leave ih hsub
  | serve _ ih =>
      rw [← List.append_assoc]
      exact .serve ih

/-- Nobody enters the line. -/
theorem sublist (hserves : Serves line served rest) : rest.Sublist line := by
  induction hserves with
  | refl => exact .refl _
  | leave _ hsub ih => exact hsub.trans ih
  | serve _ ih => exact ih

end Serves

/-- The services of some turns: a client is served as often as its turn says. -/
def services (turns : List (α × ℕ)) : List α :=
  turns.flatMap fun turn => List.replicate turn.2 turn.1

theorem services_append (first second : List (α × ℕ)) :
    services (first ++ second) = services first ++ services second := List.flatMap_append

theorem services_singleton (client : α) (count : ℕ) :
    services [(client, count)] = List.replicate count client := by
  simp [services]

/-- What has been served so far: turns that are over, and perhaps one that goes on. -/
inductive TurnsSoFar (line served : List α) : List α → Prop
  | between {rest : List α} (turns : List (α × ℕ)) (hserved : served = services turns)
      (hline : (turns.map Prod.fst ++ rest).Sublist line) : TurnsSoFar line served rest
  | during {first : α} {rest : List α} (turns : List (α × ℕ)) (count : ℕ)
      (hserved : served = services (turns ++ [(first, count)]))
      (hline : (turns.map Prod.fst ++ first :: rest).Sublist line) :
      TurnsSoFar line served (first :: rest)

namespace TurnsSoFar

variable {line served rest : List α}

/-- A turn that goes on may be regarded as over, when its client is not in the line. -/
theorem turnIsOver {turns : List (α × ℕ)} {first : α} {count : ℕ}
    (hserved : served = services (turns ++ [(first, count)]))
    (hline : (turns.map Prod.fst ++ first :: rest).Sublist line) : TurnsSoFar line served rest := by
  refine .between (turns ++ [(first, count)]) hserved ?_
  rwa [List.map_append, List.append_assoc]

theorem leave {remaining : List α} (hturns : TurnsSoFar line served rest)
    (hsub : remaining.Sublist rest) : TurnsSoFar line served remaining := by
  cases hturns with
  | between turns hserved hline =>
      exact .between turns hserved ((List.Sublist.append_left hsub _).trans hline)
  | during turns count hserved hline =>
      cases hsub with
      | cons _ hsub =>
          refine turnIsOver hserved (.trans (List.Sublist.append_left ?_ _) hline)
          exact hsub.cons_cons _
      | cons_cons _ hsub =>
          refine .during turns count hserved (.trans (List.Sublist.append_left ?_ _) hline)
          exact hsub.cons_cons _

theorem serve {first : α} (hturns : TurnsSoFar line served (first :: rest)) :
    TurnsSoFar line (served ++ [first]) (first :: rest) := by
  cases hturns with
  | between turns hserved hline =>
      refine .during turns 1 ?_ hline
      rw [services_append, services_singleton, hserved]
      rfl
  | during turns count hserved hline =>
      refine .during turns (count + 1) ?_ hline
      rw [hserved, services_append, services_append, services_singleton, services_singleton,
        List.append_assoc, List.replicate_succ']

end TurnsSoFar

/-- **The order of service**: every client that was served had one turn, and the turns came
in the order of the line. -/
theorem Serves.exists_turns {line served rest : List α} (hserves : Serves line served rest) :
    ∃ turns : List (α × ℕ), served = services turns ∧ (turns.map Prod.fst).Sublist line := by
  have hturns : TurnsSoFar line served rest := by
    induction hserves with
    | refl => exact .between [] rfl (.refl _)
    | leave _ hsub ih => exact ih.leave hsub
    | serve _ ih => exact ih.serve
  cases hturns with
  | between turns hserved hline =>
      exact ⟨turns, hserved, (List.sublist_append_left _ _).trans hline⟩
  | @during first rest turns count hserved hline =>
      refine ⟨turns ++ [(first, count)], hserved, .trans ?_ hline⟩
      rw [List.map_append]
      exact List.Sublist.append_left (List.singleton_sublist.mpr List.mem_cons_self) _

end Library
