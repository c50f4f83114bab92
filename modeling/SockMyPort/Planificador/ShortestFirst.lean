/-
# Shortest remaining time first

With `SJF-CD` the ESI that executes is, after every event and not only when it is chosen, one
that has the least left of the burst that its history lets expect. Whoever becomes ready makes
another choice due, the others keep what they have left, and the executing ESI has less left
with every statement. What is left is read off the histories that an observer of the sockets
writes down, so that nothing is said in terms of the estimations of the program.
-/

import Mathlib.Tactic.Linarith
import SockMyPort.Planificador.Bursts

namespace SockMyPort.Planificador

open SockMyPort.Commons Library

variable {alpha initialEstimation : ℚ} {blockedKeys : List CString} {sort : ListSort}
  {algorithm : SchedulingAlgorithm} {histories : Histories ℤ} {fd : ℤ}

/-! ## What is left -/

/-- What is left of a burst, as the bursts before it let expect. -/
def timeLeft (alpha initialEstimation : ℚ) (history : BurstHistory) : ℚ :=
  (exponentialAverage alpha initialEstimation).estimate history.ended - history.current

theorem timeLeft_serve (history : BurstHistory) :
    timeLeft alpha initialEstimation (history.serve 1) + 1 =
      timeLeft alpha initialEstimation history := by
  simp only [timeLeft, BurstHistory.serve, Nat.cast_add, Nat.cast_one]
  rw [sub_add_eq_sub_sub, sub_add_cancel]

/-- With exact estimations the scheduler computes an exponential average. -/
theorem burstEstimator_exactConfig :
    burstEstimator (exactConfig algorithm alpha initialEstimation blockedKeys sort) =
      exponentialAverage alpha initialEstimation := by
  have hrevise (length : ℕ) (estimated : ℚ) :
      (burstEstimator (exactConfig algorithm alpha initialEstimation blockedKeys sort)).revise
        length estimated = (alpha * (length : ℚ) + (1 - alpha) * estimated : ℚ) := by
    show alpha * ((length : ℤ) : ℚ) + (((1 : ℤ) : ℚ) - alpha) * estimated = _
    rw [Int.cast_natCast, Int.cast_one]
  exact congrArg (Estimator.mk initialEstimation) (funext fun length => funext (hrevise length))

section Choice

variable {state next : ExactState algorithm alpha initialEstimation blockedKeys sort}

/-- The remaining estimation is what is left by the history. -/
theorem remaining_eq_timeLeft (haccounted : Accounted histories state) (hknown : fd ∈ state.ids) :
    remaining state fd = timeLeft alpha initialEstimation (histories fd) := by
  obtain ⟨information, hfind⟩ := exists_information hknown
  have hid : information.esiId = fd := by simpa using List.find?_some hfind
  obtain ⟨hestimated, hreal⟩ := haccounted information (List.mem_of_find?_eq_some hfind)
  rw [burstEstimator_exactConfig, hid] at hestimated
  have hleft : leftOver information = timeLeft alpha initialEstimation (histories fd) := by
    rw [hid] at hreal
    simp only [leftOver, timeLeft, hreal, Int.cast_natCast]
    rw [hestimated]
    rfl
  simp only [remaining, figure, hfind, hleft]

end Choice

/-! ## Choices -/

section Preemptive

variable {state next : ExactState .sjfcd alpha initialEstimation blockedKeys sort}

/-- No ready ESI has less left than the one that executes, when the statement that it was
told to execute is not counted yet. -/
def ShortestFirst (histories : Histories ℤ)
    (state : ExactState .sjfcd alpha initialEstimation blockedKeys sort) : Prop :=
  ∀ fd ∈ state.gExecutionQueue, ∀ other ∈ state.gReadyQueue,
    timeLeft alpha initialEstimation (histories fd) + 1 ≤
      timeLeft alpha initialEstimation (histories other)

theorem shortestFirst_of_nil (hnone : state.gExecutionQueue = []) :
    ShortestFirst histories state := by
  intro fd hmem
  rw [hnone] at hmem
  cases hmem

/-- The program survives its comparator only if it knows all ready ESIs. -/
theorem readyKnown_of_scheduleEsis {scheduled : ExactState .sjfcd alpha initialEstimation
      blockedKeys sort} (hschedule : scheduleEsis state = some (scheduled, fd)) :
    ReadyKnown state := by
  obtain ⟨sorted, hsorted, -⟩ := Option.bind_eq_some_iff.mp hschedule
  have hsort : sortReadyQueue state (shorterEstimation state) = some sorted := hsorted
  simp only [sortReadyQueue] at hsort
  split at hsort
  · rename_i hall
    intro other hmem
    exact (isSome_obtainEsiInformationById _ _).mp (List.all_eq_true.mp hall other hmem)
  · cases hsort

/-- **A choice takes the ESI with the least left.** -/
theorem shortestFirst_rescheduleWithin {unreachable : List ℤ} {fuel : ℕ}
    (hsort : sort.OrdersDistinct) (haccounted : Accounted histories state)
    (hnone : state.gExecutionQueue = []) (hselects : selectsReachable unreachable state = true)
    (hdistinct : (next.gExecutionQueue ++ next.gReadyQueue).Nodup)
    (hchoose : rescheduleWithin unreachable (fuel + 1) state = some next) :
    ∃ told, next.orders = state.orders ++ told ∧ ShortestFirst (histories.serve told) next := by
  obtain ⟨⟨scheduled, chosen⟩, hschedule, -⟩ := Option.bind_eq_some_iff.mp hchoose
  have hknown := readyKnown_of_scheduleEsis hschedule
  obtain ⟨ready, hperm, hmem, -, -⟩ := perm_of_scheduleEsis hschedule
  obtain ⟨first, hfirst⟩ := exists_first (List.ne_nil_of_mem (hperm.mem_iff.mp hmem))
  have hreach : canReach unreachable state first = true := by
    simpa [selectsReachable, scheduleEsis_eq hknown hfirst, canReach] using hselects
  rw [rescheduleWithin_reachable hknown hfirst hreach] at hchoose
  obtain rfl := Option.some.inj hchoose
  have horder := readyOrder_perm state
  have hfirstReady : first ∈ state.gReadyQueue := horder.mem_iff.mp (List.mem_of_head? hfirst)
  -- the ready queue is what is left of it, and the ESI that was taken
  have hleft : (authorizedState state first).gReadyQueue = (readyOrder state).erase first :=
    (List.erase_eq_eraseP' _ _).symm
  have hexecution : (authorizedState state first).gExecutionQueue = [first] := by
    show state.gExecutionQueue ++ [first] = [first]
    rw [hnone, List.nil_append]
  rw [hexecution, hleft, List.singleton_append] at hdistinct
  have hready : state.gReadyQueue.Nodup :=
    (horder.symm.trans (List.perm_cons_erase (horder.mem_iff.mpr hfirstReady))).nodup_iff.mpr
      hdistinct
  have hoptimal := optimal_of_head hsort hready hknown hfirst
  refine ⟨[first], rfl, fun fd hfd other hother => ?_⟩
  obtain rfl : fd = first := List.mem_singleton.mp (hexecution ▸ hfd)
  rw [hleft] at hother
  have hne : other ≠ fd := fun hsame =>
    (List.nodup_cons.mp hdistinct).1 (hsame ▸ hother)
  have hotherReady : other ∈ state.gReadyQueue :=
    horder.mem_iff.mp (List.mem_of_mem_erase hother)
  rw [Histories.serve_self, timeLeft_serve, histories.serve_of_ne hne,
    ← remaining_eq_timeLeft haccounted (hknown fd hfirstReady),
    ← remaining_eq_timeLeft haccounted (hknown other hotherReady)]
  exact hoptimal.1 other hotherReady

/-- The choice after a result takes the ESI with the least left, or lets it go on. -/
theorem shortestFirst_chooseNext {unreachable : List ℤ} (hsort : sort.OrdersDistinct)
    (haccounted : Accounted histories state) (hsingle : state.Single)
    (hdue : state.rescheduleFlag = true → state.gReadyQueue ≠ [] → state.gExecutionQueue = [])
    (hbefore : state.rescheduleFlag = false → ShortestFirst histories state)
    (hchooses : choosesReachable unreachable state = true)
    (hdistinct : (next.gExecutionQueue ++ next.gReadyQueue).Nodup)
    (hchoose : chooseNext state unreachable = some next) :
    ∃ told, next.orders = state.orders ++ told ∧ ShortestFirst (histories.serve told) next := by
  simp only [chooseNext] at hchoose
  simp only [choosesReachable] at hchooses
  split at hchoose
  · rename_i hready
    rw [if_pos hready] at hchooses
    obtain ⟨hflag, hsome⟩ := Bool.and_eq_true_iff.mp hready
    exact shortestFirst_rescheduleWithin hsort haccounted (hdue hflag (by simpa using hsome))
      hchooses hdistinct hchoose
  · rename_i hready
    rw [if_neg hready] at hchooses
    cases hexec : state.gExecutionQueue with
    | nil =>
        rw [hexec] at hchoose
        obtain rfl := Option.some.inj hchoose
        exact ⟨[], (List.append_nil _).symm, shortestFirst_of_nil hexec⟩
    | cons executing rest =>
        rw [hexec] at hchoose hchooses
        have hone : state.gExecutionQueue = [executing] ∧ state.executingEsi = executing := by
          obtain hempty | ⟨hone, -⟩ := hsingle
          · rw [hexec] at hempty
            cases hempty
          · obtain ⟨rfl, rfl⟩ := List.cons.inj (hexec.symm.trans hone)
            exact ⟨hexec, rfl⟩
        by_cases hreach : canReach unreachable state executing = true
        · obtain ⟨bursts, -, -, rfl⟩ := of_authorizeWith_reachable hreach hchoose
          refine ⟨[executing], rfl, fun fd hfd other hother => ?_⟩
          -- nobody is ready, or no choice is due
          have hquiet : state.rescheduleFlag = false := by
            by_contra hflag
            have hsome := List.ne_nil_of_mem (show other ∈ state.gReadyQueue from hother)
            exact hready (by simp [Bool.not_eq_false _ ▸ hflag, hsome])
          have hless := hbefore hquiet fd hfd other hother
          obtain rfl : fd = executing := List.mem_singleton.mp (hone.1 ▸ hfd)
          have hne : other ≠ fd := by
            rintro rfl
            exact (List.disjoint_of_nodup_append hdistinct hfd) hother
          rw [Histories.serve_self, timeLeft_serve, histories.serve_of_ne hne]
          linarith only [hless]
        · simp only [authorizeEsiExecution, authorizeWith, hreach] at hchoose
          obtain ⟨dead, hdead, hrest⟩ := Option.bind_eq_some_iff.mp hchoose
          have hsame := undisturbed_sockMyPort hdead
          have hgone : dead.gExecutionQueue = [] :=
            gExecutionQueue_of_sockMyPort_executingEsi hsingle (hone.2 ▸ hdead)
          have hnobody : Undisturbed dead { dead with executingEsi := -1 } :=
            .of_eq rfl rfl rfl id rfl
          obtain ⟨told, horders, hshortest⟩ := shortestFirst_rescheduleWithin hsort
            (haccounted.undisturbed (hsame.trans hnobody)) hgone
            (by simpa [hreach, hdead] using hchooses) hdistinct hrest
          exact ⟨told, horders.trans (congrArg (· ++ told) hsame.orders), hshortest⟩

/-! ## Events -/

/-- What every event keeps of the state and of the notes of the observer. -/
structure ServesShortest (histories : Histories ℤ)
    (state : ExactState .sjfcd alpha initialEstimation blockedKeys sort) : Prop where
  partition : PartitionInvariant state
  one : OneExecuting state
  accounted : Accounted histories state
  shortest : ShortestFirst histories state

/-- No ESI executes and is ready as well. -/
theorem nodup_of_partition (hinv : PartitionInvariant state) :
    (state.gExecutionQueue ++ state.gReadyQueue).Nodup := by
  refine List.nodup_iff_count_le_one.mpr fun fd => ?_
  have hle : state.gNewQueue.count fd + state.gReadyQueue.count fd +
      state.gExecutionQueue.count fd + state.gBlockedQueue.count fd ≤ 1 := by
    have hle := hinv.partitioned.count_le_one fd
    simpa [PlanificadorState.dispatcher] using hle
  rw [List.count_append]
  omega

/-- Fewer ESIs execute or are ready, and no new one. -/
theorem ShortestFirst.mono (hbefore : ShortestFirst histories state)
    (hexecution : next.gExecutionQueue ⊆ state.gExecutionQueue)
    (hready : next.gReadyQueue ⊆ state.gReadyQueue) : ShortestFirst histories next :=
  fun fd hfd other hother => hbefore fd (hexecution hfd) other (hready hother)

/-- A client that connects is neither executing nor ready. -/
theorem shortestFirst_newClient {newClientFd : ℤ} {handshake : Bool}
    (hinv : ServesShortest histories state)
    (hclient : newClient state newClientFd handshake = some next) :
    ShortestFirst (histories.enter newClientFd) next := by
  have hother : ∀ other ∈ state.queues, other ≠ newClientFd := by
    rintro other hmem rfl
    have hpartition := hinv.partition.queuePartition
    obtain ⟨information, hregistered, hid⟩ := hpartition.registered other hmem
    exact (admission_newClient hclient).fresh
      (hid ▸ hpartition.connected information hregistered)
  have hqueues : next.gExecutionQueue = state.gExecutionQueue ∧
      next.gReadyQueue = state.gReadyQueue := by
    simp only [newClient] at hclient
    split at hclient
    · cases hclient
    · rw [← Option.some.inj hclient]
      cases handshake <;> exact ⟨rfl, rfl⟩
  intro fd hfd other hready
  rw [hqueues.1] at hfd
  rw [hqueues.2] at hready
  rw [histories.enter_of_ne (hother fd (by simp [PlanificadorState.queues, hfd])),
    histories.enter_of_ne (hother other (by simp [PlanificadorState.queues, hready]))]
  exact hinv.shortest fd hfd other hready

/-- Until the next choice is due, the result of the executing ESI leaves it ahead. -/
theorem shortestFirst_choiceState {result : Received}
    {choice : ExactState .sjfcd alpha initialEstimation blockedKeys sort}
    (hinv : ServesShortest histories state) (hsettling : Settling state choice)
    (hblocked : result = .code .iAmBlocked →
      choice.gExecutionQueue ⊆ takeEsiAwayFromQueue state.gExecutionQueue state.executingEsi)
    (hquiet : choice.rescheduleFlag = false) :
    ShortestFirst (noteResult state result histories) choice := by
  by_cases hcode : result = .code .iAmBlocked
  · refine shortestFirst_of_nil (List.subset_nil.mp ?_)
    have hnobody : takeEsiAwayFromQueue state.gExecutionQueue state.executingEsi = [] := by
      obtain hempty | ⟨hone, -⟩ := hinv.one.single
      · rw [hempty]
        rfl
      · rw [hone]
        simp [takeEsiAwayFromQueue, listRemoveByCondition]
    exact hnobody ▸ hblocked hcode
  · rw [noteResult, if_neg hcode]
    exact hinv.shortest.mono hsettling.execution (hsettling.ready rfl hquiet).2

theorem shortestFirst_executingEsiBranch {result scriptEnd : Received} {meanwhile : List Command}
    {unreachable : List ℤ} (hsort : sort.OrdersDistinct) (hinv : ServesShortest histories state)
    (hwell : choosesWell state (.executingEsi result scriptEnd meanwhile unreachable) = true)
    (hnext : PartitionInvariant next)
    (hbranch : executingEsiBranch state result scriptEnd meanwhile unreachable = some next) :
    ∃ told, next.orders = state.orders ++ told ∧
      ShortestFirst ((noteResult state result histories).serve told) next := by
  obtain ⟨hskip, hchooses⟩ := Bool.and_eq_true_iff.mp hwell
  obtain ⟨choice, hchoice, hchoose, hsettling, -, hblocked, haccounted⟩ :=
    of_executingEsiBranch_figures hinv.partition.partitioned.nodup hbranch
  obtain ⟨hunderway, -, -, hdue⟩ := underway_choiceState hinv.one hskip hchoice
  obtain ⟨told, horders, hshortest⟩ := shortestFirst_chooseNext hsort (haccounted hinv.accounted)
    hunderway.single hdue (shortestFirst_choiceState hinv hsettling hblocked)
    (by simpa [hchoice] using hchooses) (nodup_of_partition hnext) hchoose
  exact ⟨told, horders.trans (congrArg (· ++ told) hsettling.orders), hshortest⟩

theorem shortestFirst_endOfTurn {unreachable : List ℤ} (hsort : sort.OrdersDistinct)
    (hinv : ServesShortest histories state)
    (hwell : choosesWell state (.endOfTurn unreachable) = true) (hnext : PartitionInvariant next)
    (hturn : endOfTurn state unreachable = some next) :
    ∃ told, next.orders = state.orders ++ told ∧ ShortestFirst (histories.serve told) next := by
  obtain ⟨-, rfl⟩ | ⟨hquiet, idle, hidle, hend⟩ := of_endOfTurn hturn
  · exact ⟨[], (List.append_nil _).symm, hinv.shortest⟩
  · have hsame := undisturbed_idleState hidle
    have hnone : idle.gExecutionQueue = [] := by
      have hempty : state.gExecutionQueue = [] := by
        simpa using (Bool.and_eq_true_iff.mp hquiet).1
      exact List.subset_nil.mp (hempty ▸ hsame.execution)
    obtain ⟨-, rfl⟩ | ⟨hready, hchoose⟩ := hend
    · exact ⟨[], hsame.orders.trans (List.append_nil _).symm, shortestFirst_of_nil hnone⟩
    · obtain ⟨told, horders, hshortest⟩ := shortestFirst_rescheduleWithin hsort
        (hinv.accounted.undisturbed hsame) hnone
        (by simpa [choosesWell, hquiet, hidle, hready] using hwell) (nodup_of_partition hnext)
        hchoose
      exact ⟨told, horders.trans (congrArg (· ++ told) hsame.orders), hshortest⟩

/-- **Every event keeps the executing ESI ahead of the ready ones.** -/
theorem ServesShortest.mainStep {event : Event} (hsort : sort.OrdersDistinct)
    (hinv : ServesShortest histories state)
    (hok : (orderlyEvent state event && choosesWell state event) = true)
    (hstep : Planificador.mainStep _ state event = some next) :
    ServesShortest (watchSockets state event next histories) next := by
  obtain ⟨horderly, hwell⟩ := Bool.and_eq_true_iff.mp hok
  have hnext := hinv.partition.mainStep horderly hstep
  have honce := registersOnce_of_partition hinv.partition hstep
  refine ⟨hnext, oneExecuting_mainStep hinv.one hwell hstep,
    (accounted_mainStep honce hinv.partition.partitioned.nodup hinv.accounted hstep).2, ?_⟩
  -- what leaves the queues and sends nothing leaves the order
  have hquiet (hnote : noteEvent state event histories = histories)
      (horders : next.orders = state.orders)
      (hexecution : next.gExecutionQueue = state.gExecutionQueue)
      (hready : next.gReadyQueue = state.gReadyQueue) :
      ShortestFirst (watchSockets state event next histories) next := by
    rw [watchSockets_eq (horders.trans (List.append_nil _).symm), hnote]
    exact hinv.shortest.mono (hexecution ▸ List.Subset.refl _) (hready ▸ List.Subset.refl _)
  cases event with
  | newClient newClientFd handshake =>
      have horders := (admission_newClient hstep).orders.trans (List.append_nil _).symm
      rw [watchSockets_eq horders]
      exact shortestFirst_newClient hinv hstep
  | coordinator message =>
      obtain ⟨⟨next, answer⟩, hbranch, rfl⟩ := Option.map_eq_some_iff.mp hstep
      obtain ⟨_, _, _, _, _, rfl⟩ := of_coordinatorBranch hbranch
      exact hquiet rfl rfl rfl rfl
  | executingEsi result scriptEnd meanwhile unreachable =>
      obtain ⟨told, horders, hshortest⟩ :=
        shortestFirst_executingEsiBranch hsort hinv hwell hnext hstep
      rw [watchSockets_eq horders]
      exact hshortest
  | endOfTurn unreachable =>
      obtain ⟨told, horders, hshortest⟩ := shortestFirst_endOfTurn hsort hinv hwell hnext hstep
      rw [watchSockets_eq horders]
      exact hshortest
  | console command =>
      obtain rfl := Option.some.inj hstep
      obtain ⟨_, _, _, _, _, _, _, heq⟩ := executeCommand_eq state command
      rw [heq] at hquiet ⊢
      exact hquiet rfl rfl rfl rfl

/-! ## The result -/

/-- **Shortest remaining time first.** In every state that is reached by orderly events which
choose well, no ready ESI has less left of its burst than the ESI that executes, where what is
left is computed from the bursts that were seen on the sockets. -/
theorem shortestFirst_of_runs {events : List Event} (hsort : sort.OrdersDistinct)
    (hrun : (mainStep (exactConfig .sjfcd alpha initialEstimation blockedKeys sort)).Runs
      (fun state event => (orderlyEvent state event && choosesWell state event) = true)
      (PlanificadorState.init (exactConfig .sjfcd alpha initialEstimation blockedKeys sort))
      events next) :
    ShortestFirst
      (burstHistories (exactConfig .sjfcd alpha initialEstimation blockedKeys sort) events)
      next := by
  refine ServesShortest.shortest (hrun.invariant_notes
    (fun state histories => ServesShortest histories state) ?_ ?_)
  · intro state event next histories hinv hok hstep
    exact hinv.mainStep hsort hok hstep
  · exact ⟨partitionInvariant_init _, oneExecuting_init _, List.forall_mem_nil _,
      shortestFirst_of_nil rfl⟩

end Preemptive

/-- Half of the last burst and half of the estimation before it, at first five. -/
def halfConfig : Config := exactConfig .sjfcd (1 / 2) 5 [] insertionListSort

/-- An ESI is blocked by its second statement, and another one executes; then the console
unlocks the key, and the first one, of which less is expected, takes the place of the other. -/
def wokenBefore : List Event :=
  blockedBurst ++ [.console (.desbloquear keyK),
    .executingEsi (.code .executionSuccess) (.code .didntFinishScript) [] []]

theorem shortestFirst_of_runs_wokenBefore :
    ∃ finish : PlanificadorState halfConfig,
      finish.gExecutionQueue = [10] ∧ finish.gReadyQueue = [11] ∧
      timeLeft (1 / 2) 5 (burstHistories halfConfig wokenBefore 10) + 1 ≤
        timeLeft (1 / 2) 5 (burstHistories halfConfig wokenBefore 11) := by
  obtain ⟨finish, hrun, hcheck⟩ := PartialStep.exists_run_of_execute
    ((mainStep halfConfig).guarded
      fun state event => orderlyEvent state event && choosesWell state event)
    (PlanificadorState.init _) wokenBefore
    (fun finish : PlanificadorState halfConfig =>
      decide (finish.gExecutionQueue = [10] ∧ finish.gReadyQueue = [11])) (by decide +kernel)
  obtain ⟨hexecution, hready⟩ := of_decide_eq_true hcheck
  exact ⟨finish, hexecution, hready, shortestFirst_of_runs ordersDistinct_insertionListSort
    (PartialStep.runs_of_guarded hrun) 10 (by simp [hexecution]) 11 (by simp [hready])⟩

end SockMyPort.Planificador
