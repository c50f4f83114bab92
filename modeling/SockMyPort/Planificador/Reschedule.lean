/-
# Rescheduling when an ESI cannot be reached

`authorize_esi_execution` answers a failed send by killing the ESI and calling
`reschedule` again. The calls that are still open then set the executing ESI once
more, so that it ends as the ESI that was selected first, which is dead. The nest of
calls is followed by induction on the number of calls.
-/

import SockMyPort.Planificador.Scheduling

namespace SockMyPort.Planificador

open SockMyPort.Commons Library

variable {config : Config} {state next : PlanificadorState config} {fd : ℤ}

/-! ## The intended outcome -/

/-- The ESIs whose authorisation fails during `reschedule`. -/
def failedSends (unreachable : List ℤ) : ℕ → PlanificadorState config → List ℤ
  | 0, _ => []
  | fuel + 1, state =>
      match selectedState state with
      | some (waited, fd) =>
          if canReach unreachable waited fd then []
          else
            match sockMyPort waited fd with
            | some dead => fd :: failedSends unreachable fuel { dead with executingEsi := -1 }
            | none => [fd]
      | none => []

/-- What `reschedule` is to leave: no ESI that could not be reached, and in the
execution queue the ESI that was authorised, which is the executing one, or none. -/
structure Settled (unreachable : List ℤ) (state next : PlanificadorState config) : Prop where
  gone : ∀ fd ∈ failedSends unreachable (state.gEsiBursts.length + 1) state,
    fd ∉ next.gReadyQueue ∧ fd ∉ next.gExecutionQueue
  authorized : ∀ fd, next.orders = state.orders ++ [fd] →
    next.gExecutionQueue = [fd] ∧ next.executingEsi = fd
  nobody : next.orders = state.orders → next.gExecutionQueue = []

/-- The first ESI of the ready queue, in the order of the algorithm, can be reached. -/
def firstReachable (unreachable : List ℤ) (state : PlanificadorState config) : Bool :=
  (readyOrder state).head?.all (canReach unreachable state)

/-! ## The nest of calls -/

/-- The death of an ESI closes its socket, sends nothing and forgets one ESI. -/
theorem lost_of_sockMyPort (hsock : sockMyPort state fd = some next) :
    fd ∉ next.connectedFds ∧ next.connectedFds ⊆ state.connectedFds ∧
      next.orders = state.orders ∧ next.gEsiBursts.length + 1 = state.gEsiBursts.length := by
  have hback := background_sockMyPort hsock
  obtain ⟨hmem, released, hkeys, rfl⟩ := of_sockMyPort hsock
  have hwaking := waking_releaseKeys hkeys
  have hconnected : (forgottenState released fd).connectedFds =
      state.connectedFds.filter fun other => other ≠ fd :=
    congrArg (List.filter fun other => other ≠ fd) hwaking.connectedFds
  refine ⟨?_, ?_, hback.orders, ?_⟩
  · simp [hconnected]
  · rw [hconnected]
    exact List.filter_sublist.subset
  · have hforgotten : (forgottenState released fd).gEsiBursts =
        listRemoveByCondition state.gEsiBursts fun information => information.esiId = fd :=
      congrArg (List.eraseP fun information : EsiInformation config => information.esiId = fd)
        hwaking.gEsiBursts
    obtain ⟨information, hinformation, hid⟩ := List.mem_map.mp hmem
    rw [hforgotten, listRemoveByCondition,
      List.length_eraseP_of_mem hinformation (decide_eq_true hid)]
    exact Nat.sub_add_cancel (List.length_pos_of_mem hinformation)

/-- Every selection leaves the sockets, the orders and the number of ESIs alone. -/
theorem kept_of_selectedState (hselected : selectedState state = some (next, fd)) :
    next.connectedFds = state.connectedFds ∧ next.orders = state.orders ∧
      next.gEsiBursts.length = state.gEsiBursts.length := by
  obtain ⟨⟨scheduled, esiFd⟩, hschedule, hrest⟩ := Option.bind_eq_some_iff.mp hselected
  obtain ⟨waited, hwaited, hrest⟩ := Option.bind_eq_some_iff.mp hrest
  obtain ⟨rfl, rfl⟩ := Prod.mk.inj (Option.some.inj hrest)
  obtain ⟨ready, -, -, -, rfl⟩ := perm_of_scheduleEsis hschedule
  obtain ⟨-, bursts, rfl, hids⟩ := of_modifyInformation hwaited fun _ => rfl
  have hlength : bursts.length = state.gEsiBursts.length := by
    rw [← List.length_map EsiInformation.esiId, hids]
    exact List.length_map _
  exact ⟨rfl, rfl, hlength⟩

/-- A successful `reschedule` has authorised one ESI, whose socket was open. -/
theorem orders_of_rescheduleWithin {unreachable : List ℤ} {fuel : ℕ}
    (hchoose : rescheduleWithin unreachable fuel state = some next) :
    ∃ chosen ∈ state.connectedFds, next.orders = state.orders ++ [chosen] := by
  induction fuel generalizing state next with
  | zero => cases hchoose
  | succ fuel ih =>
      rw [rescheduleWithin_succ] at hchoose
      obtain ⟨⟨waited, fd⟩, hselected, hrest⟩ := Option.bind_eq_some_iff.mp hchoose
      obtain ⟨authorized, hauthorize, rfl⟩ := Option.map_eq_some_iff.mp hrest
      obtain ⟨hconnected, horders, -⟩ := kept_of_selectedState hselected
      rw [← hconnected, ← horders]
      by_cases hreach : canReach unreachable waited fd = true
      · rw [authorizeWith, if_pos hreach] at hauthorize
        obtain ⟨-, bursts, rfl, -⟩ := of_modifyInformation hauthorize fun _ => rfl
        exact ⟨fd, by simpa using (Bool.and_eq_true_iff.mp hreach).1, rfl⟩
      · rw [authorizeWith, if_neg hreach] at hauthorize
        obtain ⟨dead, hdead, hagain⟩ := Option.bind_eq_some_iff.mp hauthorize
        obtain ⟨-, hsubset, hsame, -⟩ := lost_of_sockMyPort hdead
        obtain ⟨chosen, hchosen, horder⟩ := ih hagain
        exact ⟨chosen, hsubset hchosen, horder.trans (congrArg (· ++ [chosen]) hsame)⟩

theorem rescheduleWithin_congr {unreachable : List ℤ} {fuel more : ℕ}
    (hfuel : state.gEsiBursts.length < fuel) (hmore : state.gEsiBursts.length < more) :
    rescheduleWithin unreachable fuel state = rescheduleWithin unreachable more state := by
  induction fuel generalizing state more with
  | zero => exact absurd hfuel (Nat.not_lt_zero _)
  | succ fuel ih =>
      obtain ⟨more, rfl⟩ := Nat.exists_eq_succ_of_ne_zero (Nat.ne_of_gt (Nat.zero_lt_of_lt hmore))
      rw [rescheduleWithin_succ, rescheduleWithin_succ]
      refine Option.bind_congr fun ⟨waited, fd⟩ hselected => congrArg _ ?_
      obtain ⟨-, -, hwaited⟩ := kept_of_selectedState hselected
      by_cases hreach : canReach unreachable waited fd = true
      · rw [authorizeWith, authorizeWith, if_pos hreach, if_pos hreach]
      · rw [authorizeWith, authorizeWith, if_neg hreach, if_neg hreach]
        refine Option.bind_congr fun dead hdead => ih ?_ ?_
        all_goals
          have hlost : dead.gEsiBursts.length + 1 = waited.gEsiBursts.length :=
            (lost_of_sockMyPort hdead).2.2.2
          simp only
          omega

/-- **`reschedule` terminates**: every nested call has lost one ESI, so that more calls
than there are ESIs change nothing. -/
theorem rescheduleWithin_enough {unreachable : List ℤ} {fuel : ℕ}
    (henough : state.gEsiBursts.length < fuel) :
    rescheduleWithin unreachable fuel state = reschedule unreachable state :=
  rescheduleWithin_congr henough (Nat.lt_succ_self _)

/-! ## The result -/

theorem settled_of_reachable {unreachable : List ℤ} (hknown : ReadyKnown state)
    (hnone : state.gExecutionQueue = []) (hfirst : (readyOrder state).head? = some fd)
    (hreach : canReach unreachable state fd = true) :
    Settled unreachable state (authorizedState state fd) := by
  have hsent : failedSends unreachable (state.gEsiBursts.length + 1) state = [] := by
    have hreach' : canReach unreachable (waitedState state fd) fd = true := hreach
    simp only [failedSends, selectedState_eq hknown hfirst, if_pos hreach']
  refine ⟨fun failed hfailed => ?_, fun chosen hchosen => ?_, fun horders => ?_⟩
  · rw [hsent] at hfailed
    cases hfailed
  · have hsame : [fd] = [chosen] := List.append_cancel_left hchosen
    obtain rfl := List.singleton_inj.mp hsame
    exact ⟨congrArg (· ++ [fd]) hnone, rfl⟩
  · exact absurd horders (by simp [authorizedState])

/-- The ESI that is selected first cannot be authorised later on, but becomes the
executing one. -/
theorem not_settled_of_unreachable {unreachable : List ℤ} (hknown : ReadyKnown state)
    (hfirst : (readyOrder state).head? = some fd) (hreach : canReach unreachable state fd ≠ true)
    (hchoose : reschedule unreachable state = some next) : ¬ Settled unreachable state next := by
  intro hsettled
  rw [reschedule, rescheduleWithin_succ, selectedState_eq hknown hfirst, Option.bind_some]
    at hchoose
  obtain ⟨authorized, hauthorize, rfl⟩ := Option.map_eq_some_iff.mp hchoose
  have hreach' : ¬ canReach unreachable (waitedState state fd) fd = true := hreach
  rw [authorizeWith, if_neg hreach'] at hauthorize
  obtain ⟨dead, hdead, hagain⟩ := Option.bind_eq_some_iff.mp hauthorize
  obtain ⟨hclosed, -, hsame, -⟩ := lost_of_sockMyPort hdead
  obtain ⟨chosen, hchosen, horders⟩ := orders_of_rescheduleWithin hagain
  have hexecuting := (hsettled.authorized chosen (horders.trans (congrArg (· ++ [chosen]) hsame))).2
  have hfd : fd = chosen := hexecuting
  exact hclosed (hfd ▸ hchosen)

/-- **Rescheduling survives dead ESIs exactly when the first choice is alive.** -/
theorem settled_iff_firstReachable {unreachable : List ℤ} (hready : state.gReadyQueue ≠ [])
    (hknown : ReadyKnown state) (hnone : state.gExecutionQueue = []) :
    (∃ next, reschedule unreachable state = some next ∧ Settled unreachable state next) ↔
      firstReachable unreachable state = true := by
  obtain ⟨fd, hfirst⟩ := exists_first hready
  have hcondition : firstReachable unreachable state = canReach unreachable state fd := by
    rw [firstReachable, hfirst, Option.all_some]
  rw [hcondition]
  constructor
  · rintro ⟨next, hchoose, hsettled⟩
    by_contra hreach
    exact not_settled_of_unreachable hknown hfirst hreach hchoose hsettled
  · intro hreach
    exact ⟨authorizedState state fd, rescheduleWithin_reachable hknown hfirst hreach,
      settled_of_reachable hknown hnone hfirst hreach⟩

/-- Two ready ESIs of a first-in-first-out scheduler. -/
def twoReady : PlanificadorState (smallConfig .fifo) :=
  { PlanificadorState.init (smallConfig .fifo) with
    gReadyQueue := [10, 11]
    connectedFds := [10, 11]
    gEsiBursts := [createEsiInformation (smallConfig .fifo) 10 1,
      createEsiInformation (smallConfig .fifo) 11 2] }

theorem settled_iff_firstReachable_twoReady :
    ∃ next, reschedule [11] twoReady = some next ∧ Settled [11] twoReady next :=
  (settled_iff_firstReachable (by decide) (by unfold ReadyKnown; decide) rfl).mpr (by decide)

/-- The first ESI cannot be reached. The second one is authorised, but the first one,
which is dead, becomes the executing ESI. -/
theorem not_settled :
    ¬ ∀ (config : Config) (state : PlanificadorState config) (unreachable : List ℤ),
      state.gReadyQueue ≠ [] → ReadyKnown state → state.gExecutionQueue = [] →
        ∃ next, reschedule unreachable state = some next ∧ Settled unreachable state next := by
  intro hclaim
  obtain ⟨next, hchoose, hsettled⟩ := hclaim _ twoReady [10] (by decide)
    (by unfold ReadyKnown; decide) rfl
  have houtcome : (reschedule [10] twoReady).map (fun state => (state.orders, state.executingEsi)) =
      some ([11], 10) := by decide
  rw [hchoose] at houtcome
  obtain ⟨horders, hexecuting⟩ := Prod.mk.inj (Option.some.inj houtcome)
  have hauthorized := (hsettled.authorized 11 horders).2
  rw [hexecuting] at hauthorized
  exact absurd hauthorized (by decide)

end SockMyPort.Planificador
