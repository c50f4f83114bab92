/-
# Progress by a measure

A measure that some events lower and no other event raises bounds how often those events
happen in a run. Where an allowed event that lowers it is always possible, a run to the
goal exists, no longer than the measure.
-/

import SockMyPort.Library.Runs

namespace Library

namespace PartialStep

universe u v

variable {σ : Type u} {ε : Type v} {step : PartialStep σ ε} {ok : σ → ε → Prop}

/-- **The measure bounds the run**: every counted event comes out of it. -/
theorem Runs.countP_add_le (inv : σ → Prop) (measure : σ → ℕ) (counted : ε → Bool)
    (keep : ∀ {state event next}, inv state → ok state event → step state event = some next →
      inv next ∧ (if counted event then 1 else 0) + measure next ≤ measure state)
    {start finish : σ} {events : List ε} (hrun : step.Runs ok start events finish)
    (hstart : inv start) : events.countP counted + measure finish ≤ measure start := by
  induction hrun with
  | refl => simp only [List.countP_nil, Nat.zero_add, Nat.le_refl]
  | head hok hstep _ ih =>
      obtain ⟨hmiddle, hlower⟩ := keep hstart hok hstep
      have hrest := ih hmiddle
      rw [List.countP_cons]
      omega

/-- **The goal is reached**: every state that has not reached it has an event that lowers
the measure. -/
theorem exists_runs_of_measure (inv goal : σ → Prop) (measure : σ → ℕ)
    (advance : ∀ state, inv state → ¬ goal state → ∃ event next, ok state event ∧
      step state event = some next ∧ inv next ∧ measure next < measure state)
    (start : σ) (hstart : inv start) :
    ∃ events finish, step.Runs ok start events finish ∧ goal finish ∧
      events.length ≤ measure start := by
  induction hmeasure : measure start using Nat.strongRecOn generalizing start with
  | ind bound ih =>
      by_cases hgoal : goal start
      · exact ⟨[], start, .refl start, hgoal, Nat.zero_le _⟩
      · obtain ⟨event, next, hok, hstep, hnext, hlower⟩ := advance start hstart hgoal
        obtain ⟨events, finish, hrun, hreached, hlength⟩ := ih _ (hmeasure ▸ hlower) next hnext rfl
        refine ⟨event :: events, finish, .head hok hstep hrun, hreached, ?_⟩
        rw [List.length_cons]
        omega

end PartialStep

end Library
