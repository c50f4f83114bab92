/-
# The ESI that is scheduled

`schedule_esis` takes the first ESI of the ready queue after ordering it. The two
comparators are preferences: the shortest-job algorithms compare remaining
estimations and favour the executing ESI, the other one compares response ratios.
Estimations are read as exact rationals here. The comparator of the shortest-job
algorithms denies that the executing ESI may stand before itself, which a sort
never asks.
-/

import Mathlib.Algebra.Order.Field.Rat
import SockMyPort.Library.Preference
import SockMyPort.Planificador.Operations

namespace SockMyPort.Planificador

open SockMyPort.Commons Library

/-! ## The order of the ready queue -/

section ReadyOrder

variable {config : Config} {state next : PlanificadorState config} {fd : ℤ}

/-- The ready queue in the order in which `schedule_esis` leaves it. -/
def readyOrder (state : PlanificadorState config) : List ℤ :=
  match config.schedulingAlgorithm with
  | .fifo => state.gReadyQueue
  | .sjfcd | .sjfsd => config.sort.listSort (shorterEstimation state) state.gReadyQueue
  | .hrrn => config.sort.listSort (higherResponseRatio state) state.gReadyQueue

theorem readyOrder_perm (state : PlanificadorState config) :
    (readyOrder state).Perm state.gReadyQueue := by
  simp only [readyOrder]
  split
  · exact .refl _
  all_goals exact config.sort.perm _ _

/-- Every ready ESI has information, so that the program survives its comparators
and its log. -/
def ReadyKnown (state : PlanificadorState config) : Prop :=
  ∀ fd ∈ state.gReadyQueue, fd ∈ state.ids

theorem exists_first (hready : state.gReadyQueue ≠ []) :
    ∃ fd, (readyOrder state).head? = some fd := by
  cases horder : readyOrder state with
  | nil => exact absurd (List.nil_perm.mp (horder ▸ readyOrder_perm state)) hready
  | cons fd rest => exact ⟨fd, rfl⟩

theorem sortReadyQueue_eq (hknown : ReadyKnown state) (comparator : ℤ → ℤ → Bool) :
    sortReadyQueue state comparator =
      some { state with gReadyQueue := config.sort.listSort comparator state.gReadyQueue } :=
  if_pos (List.all_eq_true.mpr fun fd hfd =>
    (isSome_obtainEsiInformationById _ _).mpr (hknown fd hfd))

/-- The first ESI of the order is selected. -/
theorem scheduleEsis_eq (hknown : ReadyKnown state) (hfirst : (readyOrder state).head? = some fd) :
    scheduleEsis state = some ({ state with gReadyQueue := readyOrder state }, fd) := by
  have hids : fd ∈ state.ids :=
    hknown fd ((readyOrder_perm state).mem_iff.mp (List.mem_of_head? hfirst))
  have hlog : logName { state with gReadyQueue := readyOrder state } fd =
      some { state with gReadyQueue := readyOrder state } := logName_of_mem hids
  simp only [scheduleEsis]
  simp only [readyOrder] at hfirst hlog ⊢
  split <;> rename_i halgorithm <;> simp only [halgorithm] at hfirst hlog ⊢
  · simp [hfirst, hlog]
  all_goals simp [sortReadyQueue_eq hknown, hfirst, hlog]

/-- The state in which the ESI selected is authorised. -/
def waitedState (state : PlanificadorState config) (fd : ℤ) : PlanificadorState config :=
  { state with
    gReadyQueue := takeEsiAwayFromQueue (readyOrder state) fd
    gExecutionQueue := state.gExecutionQueue ++ [fd]
    gEsiBursts := updateInformation fd (fun information => { information with waitedBursts := 0 })
      state.gEsiBursts }

theorem ids_waitedState (state : PlanificadorState config) (fd : ℤ) :
    (waitedState state fd).ids = state.ids :=
  map_esiId_updateInformation (by exact fun _ => rfl) _ _

theorem mem_ids_of_head (hknown : ReadyKnown state)
    (hfirst : (readyOrder state).head? = some fd) : fd ∈ state.ids :=
  hknown fd ((readyOrder_perm state).mem_iff.mp (List.mem_of_head? hfirst))

/-- Only the ESI selected leaves the ready queue before it is authorised. -/
theorem selectedState_eq (hknown : ReadyKnown state)
    (hfirst : (readyOrder state).head? = some fd) :
    selectedState state = some (waitedState state fd, fd) := by
  have hids : fd ∈ state.ids := mem_ids_of_head hknown hfirst
  have hwaiting : setWaitingTimeToZero
      (moveEsiFromAndToQueue { state with gReadyQueue := readyOrder state } .ready .execution fd)
      fd = some (waitedState state fd) := modifyInformation_of_mem (by exact hids) _
  simp only [selectedState, scheduleEsis_eq hknown hfirst, Option.bind_eq_bind, Option.bind_some,
    hwaiting]

/-- `reschedule` authorises the ESI selected, whatever comes of it. -/
theorem rescheduleWithin_succ (unreachable : List ℤ) (fuel : ℕ)
    (state : PlanificadorState config) :
    rescheduleWithin unreachable (fuel + 1) state =
      (selectedState state).bind fun selected =>
        (authorizeWith (rescheduleWithin unreachable fuel) unreachable selected.1 selected.2).map
          fun authorized => { authorized with executingEsi := selected.2, rescheduleFlag := false }
      := by
  simp only [rescheduleWithin, selectedState, Option.bind_eq_bind]
  cases scheduleEsis state with
  | none => rfl
  | some scheduled =>
      simp only [Option.bind_some]
      cases setWaitingTimeToZero
        (moveEsiFromAndToQueue scheduled.1 .ready .execution scheduled.2) scheduled.2 with
      | none => rfl
      | some waited => simp only [Option.bind_some, Option.map_eq_bind, Function.comp_def]

/-- What `reschedule` leaves when the ESI selected can be reached. -/
def authorizedState (state : PlanificadorState config) (fd : ℤ) : PlanificadorState config :=
  { waitedState state fd with
    gEsiBursts := updateInformation fd
      (fun information => { information with lastRealBurst := information.lastRealBurst + 1 })
      (waitedState state fd).gEsiBursts
    outstanding := state.outstanding ++ [fd]
    orders := state.orders ++ [fd]
    executingEsi := fd
    rescheduleFlag := false }

theorem rescheduleWithin_reachable {unreachable : List ℤ} {fuel : ℕ} (hknown : ReadyKnown state)
    (hfirst : (readyOrder state).head? = some fd) (hreach : canReach unreachable state fd = true) :
    rescheduleWithin unreachable (fuel + 1) state = some (authorizedState state fd) := by
  have hids : fd ∈ (waitedState state fd).ids :=
    (ids_waitedState state fd).symm ▸ mem_ids_of_head hknown hfirst
  have hreach' : canReach unreachable (waitedState state fd) fd = true := hreach
  rw [rescheduleWithin_succ, selectedState_eq hknown hfirst, Option.bind_some, authorizeWith,
    if_pos hreach', updateExecutingEsi, modifyInformation_of_mem (by exact hids)]
  rfl

end ReadyOrder

/-! ## Exact estimations -/

/-- Rational numbers in the place of floating point numbers. -/
def rationals : FloatArithmetic where
  Float := ℚ
  ofInt number := number
  add := (· + ·)
  sub := (· - ·)
  mul := (· * ·)
  div := (· / ·)
  le estimation1 estimation2 := decide (estimation1 ≤ estimation2)
  eq estimation1 estimation2 := decide (estimation1 = estimation2)

/-- A configuration with exact estimations. -/
def exactConfig (schedulingAlgorithm : SchedulingAlgorithm) (alpha initialEstimation : ℚ)
    (blockedKeys : List CString) (sort : ListSort) : Config where
  arithmetic := rationals
  schedulingAlgorithm := schedulingAlgorithm
  alpha := alpha
  initialEstimation := initialEstimation
  blockedKeys := blockedKeys
  sort := sort

variable {algorithm : SchedulingAlgorithm} {alpha initialEstimation : ℚ}
  {blockedKeys : List CString} {sort : ListSort}

/-- The scheduler with exact estimations. -/
abbrev ExactState (algorithm : SchedulingAlgorithm) (alpha initialEstimation : ℚ)
    (blockedKeys : List CString) (sort : ListSort) : Type :=
  PlanificadorState (exactConfig algorithm alpha initialEstimation blockedKeys sort)

/-- The information of an ESI with exact estimations. -/
abbrev ExactInformation (algorithm : SchedulingAlgorithm) (alpha initialEstimation : ℚ)
    (blockedKeys : List CString) (sort : ListSort) : Type :=
  EsiInformation (exactConfig algorithm alpha initialEstimation blockedKeys sort)

/-- What is left of an estimation. -/
def leftOver (information : ExactInformation algorithm alpha initialEstimation blockedKeys sort) :
    ℚ :=
  let estimated : ℚ := information.lastEstimatedBurst
  estimated - information.lastRealBurst

/-- One and the waited bursts over the estimated service. -/
def ratio (information : ExactInformation algorithm alpha initialEstimation blockedKeys sort) :
    ℚ :=
  let estimated : ℚ := information.lastEstimatedBurst
  1 + information.waitedBursts / estimated

/-- A number that is read off the information of an ESI. -/
def figure (state : ExactState algorithm alpha initialEstimation blockedKeys sort)
    (read : ExactInformation algorithm alpha initialEstimation blockedKeys sort → ℚ) (fd : ℤ) :
    ℚ :=
  match obtainEsiInformationById state.gEsiBursts fd with
  | some information => read information
  | none => 0

/-- The remaining estimation of an ESI. -/
def remaining (state : ExactState algorithm alpha initialEstimation blockedKeys sort) :
    ℤ → ℚ :=
  figure state leftOver

/-- The response ratio of an ESI. -/
def responseRatio (state : ExactState algorithm alpha initialEstimation blockedKeys sort) :
    ℤ → ℚ :=
  figure state ratio

/-- The ESI that the algorithm is meant to choose: the one queued first, one with the
least remaining estimation, where the executing ESI wins a tie, or one with the
highest response ratio. -/
def Optimal (state : ExactState algorithm alpha initialEstimation blockedKeys sort) (fd : ℤ) :
    Prop :=
  match algorithm with
  | .fifo => state.gReadyQueue.head? = some fd
  | .sjfcd | .sjfsd =>
      (∀ other ∈ state.gReadyQueue, remaining state fd ≤ remaining state other) ∧
        ∀ other ∈ state.gReadyQueue, remaining state fd = remaining state other →
          other = state.executingEsi → fd = other
  | .hrrn => ∀ other ∈ state.gReadyQueue, responseRatio state other ≤ responseRatio state fd

variable {state : ExactState algorithm alpha initialEstimation blockedKeys sort} {fd other : ℤ}

/-- An ESI that has not run yet has its whole estimation left. -/
theorem estimation_eq
    (information : ExactInformation algorithm alpha initialEstimation blockedKeys sort) :
    estimation information = leftOver information := by
  by_cases hzero : information.lastRealBurst = 0
  · rw [estimation, if_pos hzero]
    have hzero' : (information.lastRealBurst : ℚ) = 0 := by rw [hzero, Int.cast_zero]
    exact (sub_eq_self.mpr hzero').symm
  · rw [estimation, if_neg hzero]
    rfl

/-- The preference of the shortest-job algorithms. -/
def shortestJob (state : ExactState algorithm alpha initialEstimation blockedKeys sort) :
    Preference ℤ ℚ where
  rank := remaining state
  favoured esi := esi = state.executingEsi
  unique hfirst hsecond := hfirst.trans hsecond.symm

/-- The preference of the highest response ratio. -/
def highestRatio (state : ExactState algorithm alpha initialEstimation blockedKeys sort) :
    Preference ℤ ℚᵒᵈ where
  rank esi := OrderDual.toDual (responseRatio state esi)
  favoured _ := False
  unique hfirst := hfirst.elim

theorem shorterEstimation_iff (hfd : fd ∈ state.ids) (hother : other ∈ state.ids) :
    shorterEstimation state fd other = true ↔ (shortestJob state).Before fd other := by
  obtain ⟨esi1, hesi1⟩ := exists_information hfd
  obtain ⟨esi2, hesi2⟩ := exists_information hother
  have hrank1 : (shortestJob state).rank fd = leftOver esi1 := by
    simp only [shortestJob, remaining, figure, hesi1]
  have hrank2 : (shortestJob state).rank other = leftOver esi2 := by
    simp only [shortestJob, remaining, figure, hesi2]
  have hcompare : shorterEstimation state fd other =
      if decide (leftOver esi1 = leftOver esi2) && other = state.executingEsi then false
      else decide (leftOver esi1 ≤ leftOver esi2) := by
    simp only [shorterEstimation, hesi1, hesi2, estimation_eq]
    rfl
  rw [hcompare, Preference.Before, hrank1, hrank2]
  by_cases htie : leftOver esi1 = leftOver esi2 ∧ other = state.executingEsi
  · simp [htie.1, htie.2, shortestJob]
  · have hfavoured : leftOver esi1 = leftOver esi2 → ¬ (shortestJob state).favoured other :=
      fun heq hother => htie ⟨heq, hother⟩
    rw [if_neg (by simpa using htie), decide_eq_true_eq]
    exact ⟨fun hle => ⟨hle, hfavoured⟩, And.left⟩

theorem higherResponseRatio_iff (hfd : fd ∈ state.ids) (hother : other ∈ state.ids) :
    higherResponseRatio state fd other = true ↔ (highestRatio state).Before fd other := by
  obtain ⟨esi1, hesi1⟩ := exists_information hfd
  obtain ⟨esi2, hesi2⟩ := exists_information hother
  have hrank1 : responseRatio state fd = ratio esi1 := by
    simp only [responseRatio, figure, hesi1]
  have hrank2 : responseRatio state other = ratio esi2 := by
    simp only [responseRatio, figure, hesi2]
  have hcompare : higherResponseRatio state fd other = decide (ratio esi2 ≤ ratio esi1) := by
    simp only [higherResponseRatio, hesi1, hesi2]
    rfl
  rw [hcompare, Preference.Before]
  simp [highestRatio, hrank1, hrank2]

/-! ## The result -/

/-- A list that is ordered by a preference between its distinct elements begins with
the best one. -/
theorem best_of_listSort (hsort : sort.OrdersDistinct) {β : Type} [LinearOrder β]
    {preference : Preference ℤ β} {comparator : ℤ → ℤ → Bool} {queue : List ℤ}
    (hdistinct : queue.Nodup)
    (hcompare : ∀ first ∈ queue, ∀ second ∈ queue,
      comparator first second = true ↔ preference.Before first second)
    (hhead : (sort.listSort comparator queue).head? = some fd) : preference.Best queue fd := by
  have hperm := sort.perm comparator queue
  have hordered : (sort.listSort comparator queue).Pairwise preference.Before := by
    have hpairwise := hsort comparator queue hdistinct
      (fun a ha b hb hne => by
        rw [Bool.or_eq_true, hcompare a ha b hb, hcompare b hb a ha]
        exact Preference.before_total hne)
      (fun a ha b hb c hc hab hbc => (hcompare a ha c hc).mpr
        (Preference.before_trans ((hcompare a ha b hb).mp hab) ((hcompare b hb c hc).mp hbc)))
    refine hpairwise.imp_of_mem fun ha hb hab => ?_
    exact (hcompare _ (hperm.mem_iff.mp ha) _ (hperm.mem_iff.mp hb)).mp hab
  obtain ⟨rest, hrest⟩ := List.head?_eq_some_iff.mp hhead
  rw [hrest] at hordered hperm
  exact (Preference.best_head hordered).perm hperm

theorem optimal_of_head (hsort : sort.OrdersDistinct) (hdistinct : state.gReadyQueue.Nodup)
    (hknown : ReadyKnown state) (hfirst : (readyOrder state).head? = some fd) :
    Optimal state fd := by
  have hshortest : (sort.listSort (shorterEstimation state) state.gReadyQueue).head? = some fd →
      (shortestJob state).Best state.gReadyQueue fd :=
    best_of_listSort hsort hdistinct fun first hfirst second hsecond =>
      shorterEstimation_iff (hknown first hfirst) (hknown second hsecond)
  have hhighest : (sort.listSort (higherResponseRatio state) state.gReadyQueue).head? = some fd →
      (highestRatio state).Best state.gReadyQueue fd :=
    best_of_listSort hsort hdistinct fun first hfirst second hsecond =>
      higherResponseRatio_iff (hknown first hfirst) (hknown second hsecond)
  cases algorithm with
  | fifo => exact hfirst
  | sjfcd | sjfsd =>
      have hbest := hshortest hfirst
      exact ⟨hbest.least, hbest.favoured⟩
  | hrrn => exact (hhighest hfirst).least

/-- **The scheduled ESI is optimal.** It is an ESI of the queue, which is only
rearranged, and `reschedule` authorises it after taking it, and nothing else, out of
the queue; nothing else leaves the queue if it can be reached. -/
theorem scheduleEsis_optimal (hsort : sort.OrdersDistinct)
    (state : ExactState algorithm alpha initialEstimation blockedKeys sort)
    (hready : state.gReadyQueue ≠ []) (hdistinct : state.gReadyQueue.Nodup)
    (hknown : ReadyKnown state) :
    ∃ ready fd, scheduleEsis state = some ({ state with gReadyQueue := ready }, fd) ∧
      fd ∈ state.gReadyQueue ∧ Optimal state fd ∧ ready.Perm state.gReadyQueue ∧
      ∀ unreachable, ∃ waited,
        waited.gReadyQueue = ready.erase fd ∧
        reschedule unreachable state =
          (authorizeWith (rescheduleWithin unreachable state.gEsiBursts.length) unreachable waited
            fd).map (fun authorized =>
              { authorized with executingEsi := fd, rescheduleFlag := false }) ∧
        (canReach unreachable state fd = true → ∃ next,
          reschedule unreachable state = some next ∧ next.gReadyQueue = ready.erase fd) := by
  have hperm := readyOrder_perm state
  obtain ⟨fd, hfirst⟩ := exists_first hready
  have hremoved : takeEsiAwayFromQueue (readyOrder state) fd = (readyOrder state).erase fd :=
    (List.erase_eq_eraseP' _ _).symm
  refine ⟨readyOrder state, fd, scheduleEsis_eq hknown hfirst,
    hperm.mem_iff.mp (List.mem_of_head? hfirst), optimal_of_head hsort hdistinct hknown hfirst,
    hperm, fun unreachable => ⟨waitedState state fd, hremoved, ?_, fun hreach => ?_⟩⟩
  · rw [reschedule, rescheduleWithin_succ, selectedState_eq hknown hfirst, Option.bind_some]
  · exact ⟨authorizedState state fd, rescheduleWithin_reachable hknown hfirst hreach, hremoved⟩

/-- Two ready ESIs with the same estimation, of which the second one is executing. -/
def tiedState : ExactState .sjfcd 1 5 [] insertionListSort :=
  { PlanificadorState.init (exactConfig .sjfcd 1 5 [] insertionListSort) with
    gReadyQueue := [10, 11]
    executingEsi := 11
    gEsiBursts := [createEsiInformation (exactConfig .sjfcd 1 5 [] insertionListSort) 10 1,
      createEsiInformation (exactConfig .sjfcd 1 5 [] insertionListSort) 11 2] }

/-- The executing ESI is preferred to an ESI that was queued before it. -/
theorem scheduleEsis_optimal_tiedState :
    ∃ ready, scheduleEsis tiedState = some ({ tiedState with gReadyQueue := ready }, 11) := by
  obtain ⟨ready, fd, hschedule, hmem, hoptimal, -⟩ := scheduleEsis_optimal
    ordersDistinct_insertionListSort tiedState (by decide) (by decide)
    (by unfold ReadyKnown; decide)
  have htie : fd = 10 → fd = 11 := by
    rintro rfl
    exact hoptimal.2 11 (by decide) rfl rfl
  obtain rfl : fd = 11 := by
    have hfd : fd = 10 ∨ fd = 11 := by simpa [tiedState] using hmem
    exact hfd.elim htie id
  exact ⟨ready, hschedule⟩

end SockMyPort.Planificador
