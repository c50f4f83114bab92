/-
# The range of the estimations

An ESI reports that it is blocked only after it was told to execute, so that no burst is
empty. `verify_alpha` lets through weights between zero and one only. Every estimation is
therefore at least the initial estimation or one, whichever is less, and at most the initial
estimation or the longest burst. So the estimation, by which `next_estimated_burst_hrrn`
divides, stays positive when the initial one is.
-/

import SockMyPort.Planificador.ShortestFirst

namespace SockMyPort.Planificador

open SockMyPort.Commons Library

variable {config : Config} {state next : PlanificadorState config} {histories : Histories ℤ}

/-! ## No burst is empty -/

/-- Nobody is blocked, or executes, who was not told to execute. -/
structure TellsFirst (histories : Histories ℤ) (state : PlanificadorState config) : Prop where
  served : ∀ fd, (histories fd).Served
  executing : ∀ fd ∈ state.gExecutionQueue, 1 ≤ (histories fd).current

theorem tellsFirst_init (config : Config) :
    TellsFirst (fun _ => .fresh) (PlanificadorState.init config) where
  served _ := BurstHistory.served_fresh
  executing _ hmem := by cases hmem

/-- A client that connects begins with a burst that has not ended. -/
theorem TellsFirst.enter {newClientFd : ℤ} (htells : TellsFirst histories state)
    (hexecution : next.gExecutionQueue = state.gExecutionQueue)
    (hother : newClientFd ∉ state.gExecutionQueue) :
    TellsFirst (histories.enter newClientFd) next where
  served fd := by
    by_cases hsame : fd = newClientFd
    · rw [hsame, Histories.enter_self]
      exact BurstHistory.served_fresh
    · rw [histories.enter_of_ne hsame]
      exact htells.served fd
  executing fd hmem := by
    rw [hexecution] at hmem
    have hne : fd ≠ newClientFd := fun hsame => hother (hsame ▸ hmem)
    rw [histories.enter_of_ne hne]
    exact htells.executing fd hmem

/-- Whoever executes after a choice has just been told to. -/
theorem TellsFirst.of_chosen (hserved : ∀ fd, (histories fd).Served)
    (hchosen : Chosen state next) : TellsFirst (histories.serve next.outstanding) next where
  served fd := (hserved fd).serve _
  executing fd hmem := by
    have hcount : 0 < next.outstanding.count fd :=
      List.count_pos_iff.mpr (hchosen.one.outstanding ▸ hmem)
    exact Nat.le_add_left_of_le hcount

/-- The result of the executing ESI ends a burst that has begun. -/
theorem TellsFirst.served_noteResult {result : Received} (htells : TellsFirst histories state)
    (hrunning : result = .code .iAmBlocked → state.executingEsi ∈ state.gExecutionQueue)
    (fd : ℤ) : (noteResult state result histories fd).Served := by
  by_cases hcode : result = .code .iAmBlocked
  · rw [noteResult, if_pos hcode]
    by_cases hsame : fd = state.executingEsi
    · rw [hsame, Histories.finish_self]
      exact (htells.served _).finish (htells.executing _ (hrunning hcode))
    · rw [histories.finish_of_ne hsame]
      exact htells.served fd
  · rw [noteResult, if_neg hcode]
    exact htells.served fd

/-- **Every event tells an ESI to execute before it can be blocked.** -/
theorem TellsFirst.mainStep {event : Event} (htells : TellsFirst histories state)
    (hinv : PartitionInvariant state) (hone : OneExecuting state)
    (hok : (orderlyEvent state event && choosesWell state event) = true)
    (hstep : Planificador.mainStep config state event = some next) :
    TellsFirst (watchSockets state event next histories) next := by
  obtain ⟨horderly, hwell⟩ := Bool.and_eq_true_iff.mp hok
  have hquiet (hnote : noteEvent state event histories = histories)
      (horders : next.orders = state.orders)
      (hexecution : next.gExecutionQueue = state.gExecutionQueue) :
      TellsFirst (watchSockets state event next histories) next := by
    rw [watchSockets_eq (horders.trans (List.append_nil _).symm), hnote]
    exact ⟨htells.served, hexecution ▸ htells.executing⟩
  cases event with
  | newClient newClientFd handshake =>
      have hadmission := admission_newClient hstep
      rw [watchSockets_eq (hadmission.orders.trans (List.append_nil _).symm)]
      refine htells.enter hadmission.gExecutionQueue fun hmem => ?_
      obtain ⟨information, hregistered, hid⟩ := hinv.queuePartition.registered newClientFd
        (by simp [PlanificadorState.queues, hmem])
      exact hadmission.fresh (hid ▸ hinv.queuePartition.connected information hregistered)
  | coordinator message =>
      obtain ⟨⟨next, answer⟩, hbranch, rfl⟩ := Option.map_eq_some_iff.mp hstep
      obtain ⟨_, _, _, _, _, rfl⟩ := of_coordinatorBranch hbranch
      exact hquiet rfl rfl rfl
  | executingEsi result scriptEnd meanwhile unreachable =>
      have hchosen := chosen_executingEsiBranch hone hwell hstep
      rw [watchSockets_eq hchosen.orders]
      exact .of_chosen (htells.served_noteResult fun hcode =>
        mem_gExecutionQueue_of_iAmBlocked hinv horderly hstep (hcode ▸ rfl)) hchosen
  | endOfTurn unreachable =>
      obtain rfl | ⟨-, hchosen⟩ := chosen_endOfTurn hone hwell hstep
      · exact hquiet rfl rfl rfl
      · rw [watchSockets_eq hchosen.orders]
        exact .of_chosen htells.served hchosen
  | console command =>
      obtain rfl := Option.some.inj hstep
      obtain ⟨_, _, _, _, _, _, _, heq⟩ := executeCommand_eq state command
      rw [heq] at hquiet ⊢
      exact hquiet rfl rfl rfl

/-- The figures come from the bursts, and no ESI has ever ended an empty one. -/
theorem accounted_and_tellsFirst_of_runs {finish : PlanificadorState config}
    {events : List Event}
    (hrun : (mainStep config).Runs
      (fun state event => (orderlyEvent state event && choosesWell state event) = true)
      (PlanificadorState.init config) events finish) :
    Accounted (burstHistories config events) finish ∧
      TellsFirst (burstHistories config events) finish := by
  have hinvariant : PartitionInvariant finish ∧ OneExecuting finish ∧
      Accounted (burstHistories config events) finish ∧
      TellsFirst (burstHistories config events) finish := by
    refine hrun.invariant_notes (fun state histories => PartitionInvariant state ∧
      OneExecuting state ∧ Accounted histories state ∧ TellsFirst histories state) ?_
      ⟨partitionInvariant_init config, oneExecuting_init config, List.forall_mem_nil _,
        tellsFirst_init config⟩
    rintro state event next histories ⟨hinv, hone, haccounted, htells⟩ hok hstep
    obtain ⟨horderly, hwell⟩ := Bool.and_eq_true_iff.mp hok
    have honce := registersOnce_of_partition hinv hstep
    exact ⟨hinv.mainStep horderly hstep, oneExecuting_mainStep hone hwell hstep,
      (accounted_mainStep honce hinv.partitioned.nodup haccounted hstep).2,
      htells.mainStep hinv hone hok hstep⟩
  exact hinvariant.2.2

/-! ## The range -/

variable {algorithm : SchedulingAlgorithm} {alpha initialEstimation : ℚ}
  {blockedKeys : List CString} {sort : ListSort}

/-- The estimation of the next burst. -/
def expected (information : ExactInformation algorithm alpha initialEstimation blockedKeys sort) :
    ℚ :=
  information.lastEstimatedBurst

/-- `verify_alpha`: the weight in percent, as it is in the configuration. The program exits
when it is out of range. -/
def verifyAlpha (arithmetic : FloatArithmetic) (alpha : ℤ) : Option arithmetic.Float :=
  if 0 ≤ alpha ∧ alpha ≤ 100 then
    some (arithmetic.div (arithmetic.ofInt alpha) (arithmetic.ofInt 100))
  else none

theorem mem_Icc_of_verifyAlpha {percent : ℤ}
    (hverified : verifyAlpha rationals percent = some alpha) : alpha ∈ Set.Icc 0 1 := by
  simp only [verifyAlpha] at hverified
  split at hverified
  · rename_i hrange
    have halpha : (percent : ℚ) / ((100 : ℤ) : ℚ) = alpha := Option.some.inj hverified
    have hlow : (0 : ℚ) ≤ percent := by exact_mod_cast hrange.1
    have hhigh : (percent : ℚ) ≤ 100 := by exact_mod_cast hrange.2
    rw [← halpha, Int.cast_ofNat]
    exact ⟨by positivity, (div_le_one (by norm_num)).mpr hhigh⟩
  · cases hverified

/-- **The estimations stay in range**: none falls below the initial estimation and one
statement, or rises above the initial estimation and the longest burst of its ESI. -/
theorem expected_mem_Icc_of_runs {percent : ℤ} {events : List Event}
    {finish : ExactState algorithm alpha initialEstimation blockedKeys sort}
    (hverified : verifyAlpha rationals percent = some alpha)
    (hrun : (mainStep (exactConfig algorithm alpha initialEstimation blockedKeys sort)).Runs
      (fun state event => (orderlyEvent state event && choosesWell state event) = true)
      (PlanificadorState.init (exactConfig algorithm alpha initialEstimation blockedKeys sort))
      events finish)
    {information : ExactInformation algorithm alpha initialEstimation blockedKeys sort}
    (hmem : information ∈ finish.gEsiBursts) :
    expected information ∈ Set.Icc (min 1 initialEstimation)
      (max initialEstimation
        (burstHistories (exactConfig algorithm alpha initialEstimation blockedKeys sort) events
          information.esiId).longest) := by
  obtain ⟨haccounted, htells⟩ := accounted_and_tellsFirst_of_runs hrun
  have hestimated := (haccounted information hmem).1
  rw [burstEstimator_exactConfig] at hestimated
  rw [expected, hestimated]
  refine exponentialAverage_mem_Icc (mem_Icc_of_verifyAlpha hverified)
    ⟨min_le_right _ _, le_max_left _ _⟩ ?_
  intro length hlength
  have hserved := htells.served information.esiId length hlength
  have hlongest := BurstHistory.le_longest hlength
  exact ⟨(min_le_left _ _).trans (by exact_mod_cast hserved),
    le_max_of_le_right (by exact_mod_cast hlongest)⟩

/-- An ESI that is woken after a burst of two statements is expected to need three and a
half. -/
theorem expected_mem_Icc_wokenBefore :
    ∃ finish : PlanificadorState halfConfig, ∃ information ∈ finish.gEsiBursts,
      information.esiId = 10 ∧ expected information = 7 / 2 ∧
        expected information ∈ Set.Icc (min 1 5)
          (max 5 (burstHistories halfConfig wokenBefore information.esiId).longest : ℚ) := by
  obtain ⟨finish, hrun, hcheck⟩ := PartialStep.exists_run_of_execute
    ((mainStep halfConfig).guarded
      fun state event => orderlyEvent state event && choosesWell state event)
    (PlanificadorState.init _) wokenBefore
    (fun finish : PlanificadorState halfConfig => finish.gEsiBursts.any
      fun information : EsiInformation halfConfig =>
        decide (information.esiId = 10 ∧ expected information = 7 / 2)) (by decide +kernel)
  obtain ⟨information, hmem, hchecked⟩ := List.any_eq_true.mp hcheck
  obtain ⟨hid, hexpected⟩ := of_decide_eq_true hchecked
  have hhalf : ((50 : ℤ) : ℚ) / ((100 : ℤ) : ℚ) = 1 / 2 := by norm_num
  have hverified : verifyAlpha rationals 50 = some (1 / 2 : ℚ) := congrArg some hhalf
  exact ⟨finish, information, hmem, hid, hexpected,
    expected_mem_Icc_of_runs hverified (PartialStep.runs_of_guarded hrun) hmem⟩

end SockMyPort.Planificador
