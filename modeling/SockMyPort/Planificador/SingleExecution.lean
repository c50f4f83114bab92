/-
# At most one executing ESI

`reschedule` adds to the execution queue without looking at it. The invariant is
that a choice is due only under a preemptive algorithm or when no ESI executes;
it is carried through the stages of an event. It needs two conditions: the ESI
that is chosen can be reached, and an ESI that is to be preempted is taken out of
the execution queue first.
-/

import SockMyPort.Planificador.Frame

namespace SockMyPort.Planificador

open SockMyPort.Commons Library

variable {config : Config} {state next : PlanificadorState config} {fd : ℤ}

/-! ## The condition -/

/-- The ESI that `schedule_esis` selects can be reached. -/
def selectsReachable (unreachable : List ℤ) (state : PlanificadorState config) : Bool :=
  (scheduleEsis state).all fun selected => canReach unreachable selected.1 selected.2

/-- Whatever is chosen can be reached. The executing ESI may be lost, since it is
buried before the choice. -/
def choosesReachable (unreachable : List ℤ) (state : PlanificadorState config) : Bool :=
  if state.rescheduleFlag && !state.gReadyQueue.isEmpty then selectsReachable unreachable state
  else
    match state.gExecutionQueue with
    | executing :: _ =>
        canReach unreachable state executing ||
          (sockMyPort state executing).all fun dead =>
            selectsReachable unreachable { dead with executingEsi := -1 }
    | [] => true

/-- Another choice is due while an ESI executes and others are ready, but nothing
makes the main loop look at preemption. -/
def preemptionSkipped (burnt : PlanificadorState config) : Bool :=
  config.algorithmIsPreemptive && burnt.rescheduleFlag && !burnt.finishedEsiFlag &&
    !burnt.gReadyQueue.isEmpty && !burnt.gExecutionQueue.isEmpty &&
    !updatesDue burnt

/-- The event neither skips a preemption nor chooses an ESI that cannot be
reached. -/
def choosesWell (state : PlanificadorState config) : Event → Bool
  | .executingEsi result scriptEnd meanwhile unreachable =>
      (((receiveResult state result scriptEnd).bind burnIfKilled).all fun burnt =>
        !preemptionSkipped burnt) &&
      (choiceState state result scriptEnd meanwhile).all (choosesReachable unreachable)
  | .endOfTurn unreachable =>
      !(state.gExecutionQueue.isEmpty && !state.schedulerPausedFlag) ||
        (idleState state).all fun idle =>
          idle.gReadyQueue.isEmpty || selectsReachable unreachable idle
  | _ => true

/-! ## The invariant -/

/-- The invariant at the end of an event. -/
structure OneExecuting (state : PlanificadorState config) : Prop where
  single : state.Single
  outstanding : state.outstanding = state.gExecutionQueue
  due : state.rescheduleFlag = true →
    config.algorithmIsPreemptive = true ∨ state.gExecutionQueue = []
  unfinished : state.finishedEsiFlag = false

/-- The invariant between the reading of a result and the next authorisation. -/
structure Underway (state : PlanificadorState config) : Prop where
  single : state.Single
  outstanding : state.outstanding = []
  due : state.rescheduleFlag = true → config.algorithmIsPreemptive = true ∨
    state.gExecutionQueue = [] ∨ state.finishedEsiFlag = true

/-- What a choice leaves: the invariant, and one order for each ESI that executes
now, which is registered. -/
structure Chosen (state next : PlanificadorState config) : Prop where
  one : OneExecuting next
  orders : next.orders = state.orders ++ next.outstanding
  known : ∀ fd ∈ next.outstanding, fd ∈ next.ids

theorem Underway.background (hunderway : Underway state) (hback : Background state next) :
    Underway next where
  single := hback.single hunderway.single
  outstanding := hback.outstanding hunderway.outstanding
  due hflag := by
    rcases hback.rescheduleFlag hflag with hbefore | hpre
    · rcases hunderway.due hbefore with hpre | hnone | hfinished
      · exact .inl hpre
      · exact .inr (.inl (hback.execution hnone))
      · exact .inr (.inr (hback.finishedEsiFlag.trans hfinished))
    · exact .inl hpre

theorem Underway.of_idle (hone : OneExecuting state) (hnone : state.gExecutionQueue = []) :
    Underway state :=
  ⟨hone.single, hone.outstanding.trans hnone, fun _ => .inr (.inl hnone)⟩

/-! ## Choosing -/

theorem of_authorizeWith_reachable {unreachable : List ℤ}
    {again : PlanificadorState config → Option (PlanificadorState config)}
    (hreach : canReach unreachable state fd = true)
    (hauthorize : authorizeWith again unreachable state fd = some next) :
    ∃ bursts, bursts.map EsiInformation.esiId = state.ids ∧ fd ∈ state.ids ∧
      next = { state with
        gEsiBursts := bursts
        outstanding := state.outstanding ++ [fd]
        orders := state.orders ++ [fd] } := by
  rw [authorizeWith, if_pos hreach] at hauthorize
  obtain ⟨hknown, bursts, rfl, hids⟩ := of_modifyInformation hauthorize fun _ => rfl
  exact ⟨bursts, hids, hknown, rfl⟩

/-- The choice of an ESI that can be reached. -/
theorem of_rescheduleWithin {unreachable : List ℤ} {fuel : ℕ}
    (hselects : selectsReachable unreachable state = true)
    (hchoose : rescheduleWithin unreachable (fuel + 1) state = some next) :
    ∃ fd ready bursts, ready.Perm state.gReadyQueue ∧ fd ∈ ready ∧ fd ∈ state.ids ∧
      canReach unreachable state fd = true ∧ bursts.map EsiInformation.esiId = state.ids ∧
      next = { state with
        gEsiBursts := bursts
        gReadyQueue := takeEsiAwayFromQueue ready fd
        gExecutionQueue := state.gExecutionQueue ++ [fd]
        outstanding := state.outstanding ++ [fd]
        orders := state.orders ++ [fd]
        executingEsi := fd
        rescheduleFlag := false } := by
  obtain ⟨⟨scheduled, fd⟩, hschedule, hrest⟩ := Option.bind_eq_some_iff.mp hchoose
  obtain ⟨ready, hperm, hmem, hknown, rfl⟩ := perm_of_scheduleEsis hschedule
  have hreach : canReach unreachable state fd = true := by
    simpa [selectsReachable, hschedule, canReach] using hselects
  obtain ⟨waited, hwaited, hrest⟩ := Option.bind_eq_some_iff.mp hrest
  obtain ⟨-, bursts, rfl, hids⟩ := of_modifyInformation hwaited fun _ => rfl
  obtain ⟨authorized, hauthorize, hrest⟩ := Option.bind_eq_some_iff.mp hrest
  obtain ⟨bursts', hids', -, rfl⟩ := of_authorizeWith_reachable (by exact hreach) hauthorize
  refine ⟨fd, ready, bursts', hperm, hmem, hknown, hreach, hids'.trans hids, ?_⟩
  rw [← Option.some.inj hrest]
  rfl

/-- Nobody executes while an ESI that can be reached is chosen. -/
theorem chosen_rescheduleWithin {unreachable : List ℤ} {fuel : ℕ}
    (hunderway : Underway state) (hnone : state.gExecutionQueue = [])
    (hunfinished : state.finishedEsiFlag = false)
    (hselects : selectsReachable unreachable state = true)
    (hchoose : rescheduleWithin unreachable (fuel + 1) state = some next) :
    Chosen state next := by
  obtain ⟨fd, ready, bursts, -, -, hknown, hreach, hids, rfl⟩ :=
    of_rescheduleWithin hselects hchoose
  have hconnected : fd ∈ state.connectedFds := by
    simpa using (Bool.and_eq_true_iff.mp hreach).1
  refine ⟨⟨.inr ⟨?_, hconnected⟩, ?_, fun hflag => ?_, hunfinished⟩, ?_, fun other hmem => ?_⟩
  · simp [hnone]
  · simp [hnone, hunderway.outstanding]
  · cases hflag
  · simp [hunderway.outstanding]
  · simp only [hunderway.outstanding, List.nil_append, List.mem_singleton] at hmem
    rw [PlanificadorState.ids, hids, hmem]
    exact hknown

theorem gExecutionQueue_of_sockMyPort (hsock : sockMyPort state fd = some next) :
    next.gExecutionQueue = takeEsiAwayFromQueue state.gExecutionQueue fd := by
  obtain ⟨-, released, hkeys, rfl⟩ := of_sockMyPort hsock
  exact (waking_releaseKeys hkeys).gExecutionQueue

/-- The death of the executing ESI empties the execution queue. -/
theorem gExecutionQueue_of_sockMyPort_executingEsi (hsingle : state.Single)
    (hsock : sockMyPort state state.executingEsi = some next) : next.gExecutionQueue = [] := by
  rw [gExecutionQueue_of_sockMyPort hsock]
  obtain hempty | ⟨hone, -⟩ := hsingle
  · rw [hempty]
    rfl
  · rw [hone, takeEsiAwayFromQueue_singleton]

/-- **Choosing restores the invariant.** -/
theorem chosen_chooseNext {unreachable : List ℤ} (hunderway : Underway state)
    (hunfinished : state.finishedEsiFlag = false)
    (hdue : state.rescheduleFlag = true → state.gReadyQueue ≠ [] → state.gExecutionQueue = [])
    (hchooses : choosesReachable unreachable state = true)
    (hchoose : chooseNext state unreachable = some next) : Chosen state next := by
  simp only [chooseNext] at hchoose
  simp only [choosesReachable] at hchooses
  split at hchoose
  · rename_i hready
    rw [if_pos hready] at hchooses
    obtain ⟨hflag, hsome⟩ := Bool.and_eq_true_iff.mp hready
    have hnone := hdue hflag (by simpa using hsome)
    exact chosen_rescheduleWithin hunderway hnone hunfinished hchooses hchoose
  · rename_i hready
    rw [if_neg hready] at hchooses
    have hquiet : state.rescheduleFlag = true →
        config.algorithmIsPreemptive = true ∨ state.gExecutionQueue = [] := fun hflag => by
      rcases hunderway.due hflag with hpre | hnone | hfinished
      · exact .inl hpre
      · exact .inr hnone
      · rw [hunfinished] at hfinished
        cases hfinished
    cases hexec : state.gExecutionQueue with
    | nil =>
        rw [hexec] at hchoose
        obtain rfl := Option.some.inj hchoose
        refine ⟨⟨hunderway.single, hunderway.outstanding.trans hexec.symm, hquiet, hunfinished⟩,
          ?_, ?_⟩
        · simp [hunderway.outstanding]
        · simp [hunderway.outstanding]
    | cons executing rest =>
        rw [hexec] at hchoose hchooses
        obtain hempty | ⟨hone, hconnected⟩ := hunderway.single
        · rw [hexec] at hempty
          cases hempty
        · obtain ⟨rfl, rfl⟩ := List.cons.inj (hexec.symm.trans hone)
          by_cases hreach : canReach unreachable state state.executingEsi = true
          · obtain ⟨bursts, hids, hknown, rfl⟩ := of_authorizeWith_reachable hreach hchoose
            refine ⟨⟨.inr ⟨hexec, hconnected⟩, ?_, hquiet, hunfinished⟩, ?_, fun other hmem => ?_⟩
            · simp [hexec, hunderway.outstanding]
            · simp [hunderway.outstanding]
            · simp only [hunderway.outstanding, List.nil_append, List.mem_singleton] at hmem
              rw [PlanificadorState.ids, hids, hmem]
              exact hknown
          · simp only [authorizeEsiExecution, authorizeWith, hreach] at hchoose
            obtain ⟨dead, hdead, hrest⟩ := Option.bind_eq_some_iff.mp hchoose
            have hgone := gExecutionQueue_of_sockMyPort_executingEsi hunderway.single hdead
            have hafter := hunderway.background (background_sockMyPort hdead)
            have hdeadUnderway : Underway { dead with executingEsi := -1 } :=
              ⟨.inl hgone, hafter.outstanding, fun _ => .inr (.inl hgone)⟩
            have hchosen := chosen_rescheduleWithin hdeadUnderway hgone
              ((background_sockMyPort hdead).finishedEsiFlag.trans hunfinished)
              (by simpa [hreach, hdead] using hchooses) hrest
            refine ⟨hchosen.one, hchosen.orders.trans ?_, hchosen.known⟩
            rw [show ({ dead with executingEsi := -1 } : PlanificadorState config).orders =
              state.orders from (background_sockMyPort hdead).orders]

/-! ## The stages after a result -/

/-- The single-execution facts when a result is about to be read. -/
theorem underway_answeredState (hone : OneExecuting state) : Underway (answeredState state) := by
  refine ⟨hone.single, ?_, fun hflag => (hone.due hflag).imp_right .inl⟩
  have hall : ∀ other ∈ state.outstanding, other = state.executingEsi := by
    rw [hone.outstanding]
    obtain hempty | ⟨honly, -⟩ := hone.single
    · simp [hempty]
    · simp [honly]
  simpa [answeredState, endTurn] using hall

/-- A result that empties the execution queue may ask for another choice. -/
theorem Underway.rescheduleIfReady (hunderway : Underway state)
    (hfree : state.gExecutionQueue = [] ∨ state.finishedEsiFlag = true) :
    Underway (rescheduleIfReady state) := by
  obtain ⟨flag, hflag⟩ := rescheduleIfReady_eq state
  rw [hflag]
  exact ⟨hunderway.single, hunderway.outstanding, fun _ => .inr hfree⟩

theorem underway_handleResult {result : ExecutionResult} {scriptEnd : Received}
    (hunderway : Underway state)
    (hhandle : handleResult state state.executingEsi result scriptEnd = some next) :
    Underway next := by
  cases result with
  | executionSuccess =>
      obtain ⟨logged, hlog, hrest⟩ := Option.bind_eq_some_iff.mp hhandle
      obtain ⟨rfl, -⟩ := of_logName hlog
      obtain ⟨⟨received, code⟩, hcode, hrest⟩ := Option.bind_eq_some_iff.mp hrest
      have hreceived := hunderway.background (background_receiveExecutionResult hcode)
      dsimp only at hrest
      split at hrest
      · rw [← Option.some.inj hrest]
        refine Underway.rescheduleIfReady ⟨hreceived.single, hreceived.outstanding, fun _ => ?_⟩
          (.inr rfl)
        exact .inr (.inr rfl)
      · rw [← Option.some.inj hrest]
        exact hreceived
  | iAmBlocked =>
      obtain ⟨key, -, hrest⟩ := Option.bind_eq_some_iff.mp hhandle
      obtain ⟨estimated, hestimated, hrest⟩ := Option.bind_eq_some_iff.mp hrest
      obtain ⟨-, bursts, rfl, -⟩ := of_modifyInformation hestimated fun _ => rfl
      rw [← Option.some.inj hrest]
      have hnone : takeEsiAwayFromQueue state.gExecutionQueue state.executingEsi = [] := by
        obtain hempty | ⟨hone, -⟩ := hunderway.single
        · rw [hempty]
          rfl
        · rw [hone, takeEsiAwayFromQueue_singleton]
      have hblocked : Underway
          { moveEsiFromAndToQueue
            { state with gEsisSexpectingKeys :=
                state.gEsisSexpectingKeys ++ [⟨state.executingEsi, key⟩] }
            .execution .blocked state.executingEsi with gEsiBursts := bursts } :=
        ⟨.inl hnone, hunderway.outstanding, fun _ => .inr (.inl hnone)⟩
      have hready := hblocked.rescheduleIfReady (.inl hnone)
      exact ⟨hready.single, hready.outstanding, hready.due⟩
  | iBrokeTheLaw =>
      obtain ⟨logged, hlog, hrest⟩ := Option.bind_eq_some_iff.mp hhandle
      obtain ⟨rfl, -⟩ := of_logName hlog
      obtain ⟨dead, hdead, hrest⟩ := Option.bind_eq_some_iff.mp hrest
      rw [← Option.some.inj hrest]
      exact (hunderway.background (background_sockMyPort hdead)).rescheduleIfReady
        (.inl (gExecutionQueue_of_sockMyPort_executingEsi hunderway.single hdead))
  | finishedScript | didntFinishScript | other =>
      obtain rfl := Option.some.inj hhandle
      exact hunderway

theorem underway_receiveResult {result scriptEnd : Received} (hone : OneExecuting state)
    (hreceive : receiveResult state result scriptEnd = some next) : Underway next := by
  obtain ⟨received, hcode, hhandle⟩ := of_receiveResult hreceive
  have hback := background_receiveExecutionResult hcode
  have hexecuting : received.executingEsi = state.executingEsi := hback.executingEsi
  rw [← hexecuting] at hhandle
  exact underway_handleResult ((underway_answeredState hone).background hback) hhandle

/-- The end of a script empties the execution queue. -/
theorem underway_finishScript (hunderway : Underway state)
    (hfinish : finishScript state = some next) :
    Underway next ∧ next.gExecutionQueue = [] := by
  obtain ⟨released, key, hrelease, rfl⟩ := of_finishScript hfinish
  obtain ⟨-, freed, hkeys, rfl⟩ := of_releaseResources hrelease
  have hwaking := waking_releaseKeys hkeys
  have hnone : takeEsiAwayFromQueue freed.gExecutionQueue state.executingEsi = [] := by
    rw [hwaking.gExecutionQueue]
    obtain hempty | ⟨hone, -⟩ := hunderway.single
    · rw [hempty]
      rfl
    · rw [hone, takeEsiAwayFromQueue_singleton]
  refine ⟨⟨.inl hnone, ?_, fun _ => .inr (.inl hnone)⟩, hnone⟩
  have hout : freed.outstanding = [] := hwaking.outstanding.trans hunderway.outstanding
  simp [moveEsiFromAndToQueue, PlanificadorState.setQueue, forgottenState, removeFd, endTurn, hout]

/-- Preemption leaves nothing executing, or no choice due. -/
theorem underway_preempt (hunderway : Underway state)
    (hunfinished : state.finishedEsiFlag = false) :
    Underway (preempt state) ∧
      ((preempt state).rescheduleFlag = true → (preempt state).gExecutionQueue = []) := by
  by_cases hpreempt :
      (config.algorithmIsPreemptive && !state.finishedEsiFlag && state.rescheduleFlag) = true
  · have hnone : (preempt state).gExecutionQueue = [] := by
      rw [preempt, if_pos hpreempt]
      obtain hempty | ⟨hone, -⟩ := hunderway.single
      · simp [moveEsiFromAndToQueue, PlanificadorState.setQueue, PlanificadorState.queue,
          takeEsiAwayFromQueue, hempty]
      · simp [moveEsiFromAndToQueue, PlanificadorState.setQueue, PlanificadorState.queue,
          takeEsiAwayFromQueue, hone]
    refine ⟨⟨.inl hnone, ?_, fun _ => .inr (.inl hnone)⟩, fun _ => hnone⟩
    rw [preempt, if_pos hpreempt]
    exact hunderway.outstanding
  · rw [preempt, if_neg hpreempt]
    refine ⟨hunderway, fun hflag => ?_⟩
    rcases hunderway.due hflag with hpre | hnone | hfinished
    · exact absurd (by simp [hpre, hunfinished, hflag]) hpreempt
    · exact hnone
    · rw [hunfinished] at hfinished
      cases hfinished

theorem finishedEsiFlag_preempt (state : PlanificadorState config) :
    (preempt state).finishedEsiFlag = state.finishedEsiFlag := by
  simp only [preempt]
  split <;> rfl

/-- After the updates no choice is due while an ESI executes and another is
ready, unless preemption was skipped. -/
theorem underway_updateQueues (hunderway : Underway state)
    (hunfinished : state.finishedEsiFlag = false) (hnot : preemptionSkipped state = false)
    (hupdate : updateQueues state = some next) :
    Underway next ∧ next.finishedEsiFlag = false ∧
      (next.rescheduleFlag = true → next.gReadyQueue ≠ [] → next.gExecutionQueue = []) := by
  obtain ⟨hquiet, rfl⟩ | ⟨-, updated, hupdates, rfl⟩ := of_updateQueues hupdate
  · refine ⟨hunderway, hunfinished, fun hflag hready => ?_⟩
    rcases hunderway.due hflag with hpre | hnone | hfinished
    · by_contra hexec
      have hskipped : preemptionSkipped next = true := by
        simp [preemptionSkipped, hpre, hflag, hunfinished, hready, hexec, hquiet]
      rw [hnot] at hskipped
      cases hskipped
    · exact hnone
    · rw [hunfinished] at hfinished
      cases hfinished
  · have hback := background_pendingUpdates hupdates
    obtain ⟨hafter, hdue⟩ := underway_preempt (hunderway.background hback)
      (hback.finishedEsiFlag.trans hunfinished)
    exact ⟨hafter, (finishedEsiFlag_preempt _).trans (hback.finishedEsiFlag.trans hunfinished),
      fun hflag _ => hdue hflag⟩

/-- Nobody is told to execute before the choice. -/
theorem orders_of_settleResult {result scriptEnd : Received}
    (hsettle : settleResult state result scriptEnd = some next) : next.orders = state.orders := by
  obtain ⟨received, burnt, hreceive, hburn, hend⟩ := of_settleResult hsettle
  have hburnt : burnt.orders = state.orders :=
    (background_burnIfKilled hburn).orders.trans (control_of_receiveResult hreceive).2
  obtain ⟨-, hfinish⟩ | ⟨-, hupdate⟩ := hend
  · obtain ⟨released, key, hrelease, rfl⟩ := of_finishScript hfinish
    obtain ⟨-, freed, hkeys, rfl⟩ := of_releaseResources hrelease
    exact (waking_releaseKeys hkeys).orders.trans hburnt
  · obtain ⟨-, rfl⟩ | ⟨-, updated, hupdates, rfl⟩ := of_updateQueues hupdate
    · exact hburnt
    · have hpreempt : (preempt updated).orders = updated.orders := by
        simp only [preempt]
        split <;> rfl
      exact (hpreempt.trans (background_pendingUpdates hupdates).orders).trans hburnt

theorem underway_settleResult {result scriptEnd : Received} (hone : OneExecuting state)
    (hskip : ((receiveResult state result scriptEnd).bind burnIfKilled).all
      (fun burnt => !preemptionSkipped burnt) = true)
    (hsettle : settleResult state result scriptEnd = some next) :
    Underway { next with finishedEsiFlag := false } ∧
      (next.rescheduleFlag = true → next.gReadyQueue ≠ [] → next.gExecutionQueue = []) := by
  obtain ⟨received, burnt, hreceive, hburn, hend⟩ := of_settleResult hsettle
  have hunderway : Underway burnt :=
    (underway_receiveResult hone hreceive).background (background_burnIfKilled hburn)
  obtain ⟨-, hfinish⟩ | ⟨hunfinished, hupdate⟩ := hend
  · obtain ⟨hafter, hnone⟩ := underway_finishScript hunderway hfinish
    exact ⟨⟨hafter.single, hafter.outstanding, fun _ => .inr (.inl hnone)⟩, fun _ _ => hnone⟩
  · have hnot : preemptionSkipped burnt = false := by
      simpa [hreceive, hburn] using hskip
    obtain ⟨hafter, hstill, hdue⟩ := underway_updateQueues hunderway hunfinished hnot hupdate
    refine ⟨⟨hafter.single, hafter.outstanding, fun hflag => ?_⟩, hdue⟩
    rcases hafter.due hflag with hpre | hnone | hfinished
    · exact .inl hpre
    · exact .inr (.inl hnone)
    · rw [hstill] at hfinished
      cases hfinished

/-! ## Events -/

theorem due_foldl_executeCommand (commands : List Command) (state : PlanificadorState config) :
    (commands.foldl executeCommand state).rescheduleFlag = state.rescheduleFlag ∧
      (commands.foldl executeCommand state).gReadyQueue = state.gReadyQueue ∧
      (commands.foldl executeCommand state).gExecutionQueue = state.gExecutionQueue := by
  induction commands generalizing state with
  | nil => exact ⟨rfl, rfl, rfl⟩
  | cons command commands ih =>
      obtain ⟨_, _, _, _, _, _, _, heq⟩ := executeCommand_eq state command
      obtain ⟨hflag, hready, hexec⟩ := ih (executeCommand state command)
      rw [List.foldl_cons, hflag, hready, hexec, heq]
      exact ⟨rfl, rfl, rfl⟩

/-- What holds when the next ESI is chosen. -/
theorem underway_choiceState {result scriptEnd : Received} {meanwhile : List Command}
    (hone : OneExecuting state)
    (hskip : ((receiveResult state result scriptEnd).bind burnIfKilled).all
      (fun burnt => !preemptionSkipped burnt) = true)
    (hchoice : choiceState state result scriptEnd meanwhile = some next) :
    Underway next ∧ next.finishedEsiFlag = false ∧ next.orders = state.orders ∧
      (next.rescheduleFlag = true → next.gReadyQueue ≠ [] → next.gExecutionQueue = []) := by
  obtain ⟨settled, resumed, hsettle, hresumed, rfl⟩ := of_choiceState hchoice
  obtain ⟨hunderway, hdue⟩ := underway_settleResult hone hskip hsettle
  have hback := background_waitWhilePaused hresumed
  have hsettled := orders_of_settleResult hsettle
  refine ⟨(hunderway.background hback).background
    (background_of_eq rfl rfl rfl rfl rfl rfl rfl Or.inl), hback.finishedEsiFlag,
    hback.orders.trans hsettled, ?_⟩
  obtain ⟨commands, rfl⟩ := of_waitWhilePaused hresumed
  obtain ⟨hflag, hready, hexec⟩ :=
    due_foldl_executeCommand commands { settled with finishedEsiFlag := false }
  simp only [updateWaitingTimeOfReadyEsis, hflag, hready, hexec]
  exact hdue

theorem chosen_executingEsiBranch {result scriptEnd : Received} {meanwhile : List Command}
    {unreachable : List ℤ} (hone : OneExecuting state)
    (hwell : choosesWell state (.executingEsi result scriptEnd meanwhile unreachable) = true)
    (hbranch : executingEsiBranch state result scriptEnd meanwhile unreachable = some next) :
    Chosen state next := by
  obtain ⟨hskip, hchooses⟩ := Bool.and_eq_true_iff.mp hwell
  obtain ⟨-, choice, hchoice, hchoose⟩ := of_executingEsiBranch hbranch
  obtain ⟨hunderway, hunfinished, horders, hdue⟩ := underway_choiceState hone hskip hchoice
  have hchosen : Chosen choice next :=
    chosen_chooseNext hunderway hunfinished hdue (by simpa [hchoice] using hchooses) hchoose
  exact ⟨hchosen.one, horders ▸ hchosen.orders, hchosen.known⟩

/-- The end of a turn changes nothing while an ESI executes. -/
theorem chosen_endOfTurn {unreachable : List ℤ} (hone : OneExecuting state)
    (hwell : choosesWell state (.endOfTurn unreachable) = true)
    (hturn : endOfTurn state unreachable = some next) :
    next = state ∨ (state.gExecutionQueue = [] ∧ Chosen state next) := by
  obtain ⟨-, rfl⟩ | ⟨hquiet, idle, hidle, hend⟩ := of_endOfTurn hturn
  · exact .inl rfl
  · have hnone : state.gExecutionQueue = [] := by
      simpa using (Bool.and_eq_true_iff.mp hquiet).1
    have hback := background_idleState hidle
    have hunderway := (Underway.of_idle hone hnone).background hback
    have hnone' := hback.execution hnone
    have hunfinished := hback.finishedEsiFlag.trans hone.unfinished
    refine .inr ⟨hnone, ?_⟩
    obtain ⟨-, rfl⟩ | ⟨hready, hchoose⟩ := hend
    · refine ⟨⟨hunderway.single, hunderway.outstanding.trans hnone'.symm, fun _ => .inr hnone',
        hunfinished⟩, ?_, ?_⟩
      · simp [hunderway.outstanding, hback.orders]
      · simp [hunderway.outstanding]
    · have hchosen := chosen_rescheduleWithin hunderway hnone' hunfinished
        (by simpa [choosesWell, hquiet, hidle, hready] using hwell) hchoose
      exact ⟨hchosen.one, hback.orders ▸ hchosen.orders, hchosen.known⟩

/-- A new client is not executing yet. -/
theorem oneExecuting_newClient {newClientFd : ℤ} {handshake : Bool} (hone : OneExecuting state)
    (hclient : newClient state newClientFd handshake = some next) : OneExecuting next := by
  simp only [newClient] at hclient
  split at hclient
  · cases hclient
  · rename_i hfree
    rw [← Option.some.inj hclient]
    have hnew : newClientFd ∉ state.connectedFds := fun hmem => hfree (by simp [hmem])
    have hdue : (if config.algorithmIsPreemptive then true else state.rescheduleFlag) = true →
        config.algorithmIsPreemptive = true ∨ state.gExecutionQueue = [] := fun hflag => by
      cases hpre : config.algorithmIsPreemptive with
      | false => exact hpre ▸ hone.due (by simpa [hpre] using hflag)
      | true => exact .inl rfl
    have hother : ∀ other ∈ state.outstanding, other ≠ newClientFd := by
      rw [hone.outstanding]
      obtain hempty | ⟨honly, hconnected⟩ := hone.single
      · simp [hempty]
      · rw [honly]
        rintro other hmem rfl
        exact hnew (List.mem_singleton.mp hmem ▸ hconnected)
    cases handshake with
    | true =>
        exact ⟨hone.single.imp_right fun h => ⟨h.1, List.mem_append_left _ h.2⟩,
          hone.outstanding, hdue, hone.unfinished⟩
    | false =>
        refine ⟨hone.single.imp_right fun h => ⟨h.1, ?_⟩, ?_, hdue, hone.unfinished⟩
        · refine List.mem_filter.mpr ⟨List.mem_append_left _ h.2, ?_⟩
          exact decide_eq_true fun heq => hnew (heq ▸ h.2)
        · refine (List.filter_eq_self.mpr fun other hmem => ?_).trans hone.outstanding
          exact decide_eq_true (hother other hmem)

theorem oneExecuting_coordinatorBranch {message : CoordinatorMessage}
    {answer : Option CoordinatorAnswer} (hone : OneExecuting state)
    (hbranch : coordinatorBranch state message = some (next, answer)) : OneExecuting next := by
  obtain ⟨_, _, _, _, _, rfl⟩ := of_coordinatorBranch hbranch
  exact ⟨hone.single, hone.outstanding, hone.due, hone.unfinished⟩

/-- **Every event that chooses well keeps the invariant.** -/
theorem oneExecuting_mainStep {event : Event} (hone : OneExecuting state)
    (hwell : choosesWell state event = true) (hstep : mainStep config state event = some next) :
    OneExecuting next := by
  cases event with
  | newClient newClientFd handshake => exact oneExecuting_newClient hone hstep
  | coordinator message =>
      obtain ⟨⟨next, answer⟩, hbranch, rfl⟩ := Option.map_eq_some_iff.mp hstep
      exact oneExecuting_coordinatorBranch hone hbranch
  | executingEsi result scriptEnd meanwhile unreachable =>
      exact (chosen_executingEsiBranch hone hwell hstep).one
  | endOfTurn unreachable =>
      obtain rfl | ⟨-, hchosen⟩ := chosen_endOfTurn hone hwell hstep
      · exact hone
      · exact hchosen.one
  | console command =>
      obtain rfl := Option.some.inj hstep
      obtain ⟨_, _, _, _, _, _, _, heq⟩ := executeCommand_eq state command
      rw [heq]
      exact ⟨hone.single, hone.outstanding, hone.due, hone.unfinished⟩

theorem oneExecuting_init (config : Config) : OneExecuting (PlanificadorState.init config) :=
  ⟨.inl rfl, rfl, fun _ => .inr rfl, rfl⟩

/-! ## The result -/

/-- What the program is meant to keep: no more than one ESI is in the execution
queue; it is the executing ESI, and the only one that was told to execute and has
not answered. -/
def AtMostOneExecuting (state : PlanificadorState config) : Prop :=
  state.gExecutionQueue = [] ∨
    (state.gExecutionQueue = [state.executingEsi] ∧ state.outstanding = [state.executingEsi])

/-- **At most one executing ESI.** It holds in every state that is reached by
events that choose well. -/
theorem atMostOneExecuting_of_runs {finish : PlanificadorState config} {events : List Event}
    (hrun : (mainStep config).Runs (fun state event => choosesWell state event = true)
      (PlanificadorState.init config) events finish) :
    AtMostOneExecuting finish := by
  have hone : OneExecuting finish :=
    hrun.invariant _ (fun hinv hwell hstep => oneExecuting_mainStep hinv hwell hstep)
      (oneExecuting_init config)
  obtain hempty | ⟨honly, -⟩ := hone.single
  · exact .inl hempty
  · exact .inr ⟨honly, hone.outstanding.trans honly⟩

instance (state : PlanificadorState config) : Decidable (AtMostOneExecuting state) := by
  unfold AtMostOneExecuting
  infer_instance

/-- Two ESIs connect and one of them executes. -/
theorem atMostOneExecuting_of_runs_execute :
    ∃ finish : PlanificadorState (smallConfig .fifo), finish.gExecutionQueue = [10] ∧
      AtMostOneExecuting finish := by
  obtain ⟨finish, hrun, hcheck⟩ := PartialStep.exists_run_of_execute
    ((mainStep (smallConfig .fifo)).guarded choosesWell) (PlanificadorState.init _)
    [.newClient 10 true, .newClient 11 true, .endOfTurn [],
      .executingEsi (.code .executionSuccess) (.code .didntFinishScript) [] []]
    (fun state => decide (state.gExecutionQueue = [10])) (by decide)
  exact ⟨finish, of_decide_eq_true hcheck,
    atMostOneExecuting_of_runs (PartialStep.runs_of_guarded hrun)⟩

/-- An ESI is killed whose key another one waits for. The woken ESI is chosen
while the executing one goes on. -/
theorem not_atMostOneExecuting :
    ¬ ∀ (config : Config) (finish : PlanificadorState config) (events : List Event),
      (mainStep config).FreeRuns (PlanificadorState.init config) events finish →
        AtMostOneExecuting finish := by
  intro hclaim
  obtain ⟨finish, hrun, hcheck⟩ := PartialStep.exists_run_of_execute
    (mainStep (smallConfig .sjfcd)) (PlanificadorState.init _)
    [.newClient 10 true, .newClient 11 true, .newClient 12 true,
      .console (.bloquear keyK 3), .console (.bloquear keyK 2), .endOfTurn [],
      .console (.kill 3),
      .executingEsi (.code .executionSuccess) (.code .didntFinishScript) [] []]
    (fun state => decide (¬ AtMostOneExecuting state)) (by decide)
  exact of_decide_eq_true hcheck (hclaim _ finish _ hrun)

end SockMyPort.Planificador
