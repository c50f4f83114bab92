/-
# First come, first served among the ready ESIs

With `FIFO` the main loop executes the head of the ready queue and does not rearrange it.
In front of an ESI in the ready queue is a line: the executing ESI and the ready ones that
came before. No stage of an event brings anybody into this line, wherever the stage runs,
unless it is about the ESI itself. `PROTOCOL_PE_EXEC` is sent to the first of the line, so
that the line is served in its order, each ESI in one turn.
-/

import SockMyPort.Library.ServiceOrder
import SockMyPort.Planificador.SingleExecution
import SockMyPort.Planificador.QueuePartition

namespace SockMyPort.Planificador

open SockMyPort.Commons Library

variable {config : Config} {state next : PlanificadorState config} {fd : ℤ}

/-! ## The line before an ESI -/

/-- Who comes before an ESI in the ready queue, after those that execute. -/
def PlanificadorState.lineBefore (state : PlanificadorState config) (fd : ℤ) : List ℤ :=
  state.gExecutionQueue ++ inFront fd state.gReadyQueue

/-- An ESI that is ready at most, and only once. -/
structure ReadyAtMost (fd : ℤ) (state : PlanificadorState config) : Prop where
  once : state.gReadyQueue.count fd ≤ 1
  entered : fd ∉ state.gNewQueue
  awake : ∀ sexpecting ∈ state.gEsisSexpectingKeys, sexpecting.esiFd ≠ fd

/-- Between two states nobody gets in front of an ESI, and the ESI does not leave the ready
queue to come back. -/
structure KeepsLine (fd : ℤ) (state next : PlanificadorState config) : Prop where
  requests : next.gNewBlockedByConsoleEsis ⊆ state.gNewBlockedByConsoleEsis
  readyAtMost : ReadyAtMost fd state → ReadyAtMost fd next
  ready : ReadyAtMost fd state → fd ∈ next.gReadyQueue → fd ∈ state.gReadyQueue
  line : ReadyAtMost fd state → fd ∈ next.gReadyQueue →
    (next.lineBefore fd).Sublist (state.lineBefore fd)

namespace KeepsLine

@[refl]
theorem refl (state : PlanificadorState config) : KeepsLine fd state state :=
  ⟨List.Subset.refl _, id, fun _ => id, fun _ _ => .refl _⟩

theorem trans {middle : PlanificadorState config} (hfirst : KeepsLine fd state middle)
    (hsecond : KeepsLine fd middle next) : KeepsLine fd state next where
  requests := List.Subset.trans hsecond.requests hfirst.requests
  readyAtMost hbefore := hsecond.readyAtMost (hfirst.readyAtMost hbefore)
  ready hbefore hmem := hfirst.ready hbefore (hsecond.ready (hfirst.readyAtMost hbefore) hmem)
  line hbefore hmem :=
    have hmiddle := hfirst.readyAtMost hbefore
    (hsecond.line hmiddle hmem).trans (hfirst.line hbefore (hsecond.ready hmiddle hmem))

/-- ESIs that are taken out of queues leave the line at most. -/
theorem of_sublist (hrequests : next.gNewBlockedByConsoleEsis ⊆ state.gNewBlockedByConsoleEsis)
    (hnew : next.gNewQueue ⊆ state.gNewQueue)
    (hwaiting : next.gEsisSexpectingKeys ⊆ state.gEsisSexpectingKeys)
    (hready : next.gReadyQueue.Sublist state.gReadyQueue)
    (hexecution : next.gExecutionQueue.Sublist state.gExecutionQueue) :
    KeepsLine fd state next where
  requests := hrequests
  readyAtMost hbefore :=
    ⟨(hready.count_le fd).trans hbefore.once, fun hmem => hbefore.entered (hnew hmem),
      fun sexpecting hmem => hbefore.awake sexpecting (hwaiting hmem)⟩
  ready _ hmem := hready.subset hmem
  line hbefore hmem := hexecution.append (inFront_sublist hready hbefore.once hmem)

/-- Others that become ready come later. -/
theorem of_append {others : List ℤ} (hothers : ReadyAtMost fd state → fd ∉ others)
    (hrequests : next.gNewBlockedByConsoleEsis ⊆ state.gNewBlockedByConsoleEsis)
    (hnew : next.gNewQueue ⊆ state.gNewQueue)
    (hwaiting : next.gEsisSexpectingKeys ⊆ state.gEsisSexpectingKeys)
    (hready : next.gReadyQueue = state.gReadyQueue ++ others)
    (hexecution : next.gExecutionQueue = state.gExecutionQueue) : KeepsLine fd state next where
  requests := hrequests
  readyAtMost hbefore := by
    refine ⟨?_, fun hmem => hbefore.entered (hnew hmem),
      fun sexpecting hmem => hbefore.awake sexpecting (hwaiting hmem)⟩
    rw [hready, List.count_append, List.count_eq_zero.mpr (hothers hbefore)]
    exact hbefore.once
  ready hbefore hmem := by
    rw [hready] at hmem
    exact (List.mem_append.mp hmem).resolve_right (hothers hbefore)
  line hbefore hmem := by
    rw [hready] at hmem
    have hbeforeReady := (List.mem_append.mp hmem).resolve_right (hothers hbefore)
    rw [PlanificadorState.lineBefore, PlanificadorState.lineBefore, hready, hexecution,
      inFront_append_of_mem hbeforeReady]

/-- What the line does not look at. -/
theorem of_eq (hrequests : next.gNewBlockedByConsoleEsis = state.gNewBlockedByConsoleEsis)
    (hnew : next.gNewQueue = state.gNewQueue)
    (hwaiting : next.gEsisSexpectingKeys = state.gEsisSexpectingKeys)
    (hready : next.gReadyQueue = state.gReadyQueue)
    (hexecution : next.gExecutionQueue = state.gExecutionQueue) : KeepsLine fd state next :=
  .of_sublist (hrequests ▸ List.Subset.refl _) (hnew ▸ List.Subset.refl _)
    (hwaiting ▸ List.Subset.refl _) (hready ▸ .refl _) (hexecution ▸ .refl _)

end KeepsLine

theorem takeEsiAwayFromQueue_sublist (queue : List ℤ) (other : ℤ) :
    (takeEsiAwayFromQueue queue other).Sublist queue := List.eraseP_sublist

/-! ## Waking and burying -/

theorem keepsLine_clear (state : PlanificadorState config) (flag : UnblockFlag) :
    KeepsLine fd state (state.clear flag) := by
  cases flag <;> exact .of_eq rfl rfl rfl rfl rfl

/-- Only an ESI that waits for a key is woken. -/
theorem exists_sexpecting_of_unlockEsi {waiting : List EsiSexpectingKey} {key : CString}
    (hsome : (unlockEsi waiting key).1 ≠ -1) :
    ∃ sexpecting ∈ waiting, sexpecting.esiFd = (unlockEsi waiting key).1 := by
  cases hfind : waiting.find? fun sexpecting => sexpecting.key = key with
  | none => simp [unlockEsi, hfind] at hsome
  | some sexpecting =>
      exact ⟨sexpecting, List.mem_of_find?_eq_some hfind, by simp [unlockEsi, hfind]⟩

theorem keepsLine_updateBlockedEsiQueue {key : CString} {flag : UnblockFlag} {wasAStore : Bool}
    (hupdate : updateBlockedEsiQueue state key flag wasAStore = some next) :
    KeepsLine fd state next := by
  obtain ⟨-, rfl⟩ | ⟨hsome, -, rfl⟩ := of_updateBlockedEsiQueue hupdate
  · refine .trans ?_ (keepsLine_clear (freedState state key) flag)
    exact .of_sublist (List.Subset.refl _) (List.Subset.refl _) List.eraseP_subset (.refl _)
      (.refl _)
  · refine .trans ?_ (keepsLine_clear (wokenState state key wasAStore _) flag)
    obtain ⟨sexpecting, hmem, heq⟩ := exists_sexpecting_of_unlockEsi hsome
    refine .of_append (fun hbefore hwoken => ?_) (List.Subset.refl _) (List.Subset.refl _)
      List.eraseP_subset rfl rfl
    exact hbefore.awake sexpecting hmem (heq.trans (List.mem_singleton.mp hwoken).symm)

theorem keepsLine_releaseKeys {keys : List CString} (hkeys : releaseKeys state keys = some next) :
    KeepsLine fd state next :=
  PartialStep.foldlM_invariant (KeepsLine fd state)
    (fun hinv hstep => hinv.trans (keepsLine_updateBlockedEsiQueue hstep)) hkeys (.refl state)

theorem keepsLine_forgottenState (state : PlanificadorState config) (other : ℤ) :
    KeepsLine fd state (forgottenState state other) :=
  .of_sublist (List.Subset.refl _) (List.Subset.refl _) List.eraseP_subset (.refl _) (.refl _)

theorem keepsLine_buriedState (state : PlanificadorState config) (other : ℤ)
    (finished : List ℤ) : KeepsLine fd state (buriedState state other finished) :=
  .of_sublist (List.Subset.refl _) (takeEsiAwayFromQueue_sublist _ _).subset
    (List.Subset.refl _) (takeEsiAwayFromQueue_sublist _ _) (takeEsiAwayFromQueue_sublist _ _)

theorem keepsLine_releaseResources {other : ℤ}
    (hrelease : releaseResources state other = some next) : KeepsLine fd state next := by
  obtain ⟨-, released, hkeys, rfl⟩ := of_releaseResources hrelease
  exact (keepsLine_releaseKeys hkeys).trans (keepsLine_forgottenState released other)

theorem keepsLine_sockMyPort {other : ℤ} (hsock : sockMyPort state other = some next) :
    KeepsLine fd state next := by
  obtain ⟨-, released, hkeys, rfl⟩ := of_sockMyPort hsock
  exact ((keepsLine_buriedState state other _).trans (keepsLine_releaseKeys hkeys)).trans
    (keepsLine_forgottenState released other)

theorem keepsLine_burnIfKilled (hburn : burnIfKilled state = some next) :
    KeepsLine fd state next := by
  simp only [burnIfKilled] at hburn
  split at hburn
  · obtain ⟨burnt, hburnt, rfl⟩ := of_burnEsiCorpses hburn
    have hspared : KeepsLine fd state { state with gNewKilledEsis := condemned state } :=
      .of_eq rfl rfl rfl rfl rfl
    have hloop := PartialStep.foldlM_invariant
      (KeepsLine fd { state with gNewKilledEsis := condemned state })
      (fun hinv hstep => hinv.trans (keepsLine_sockMyPort hstep)) hburnt (.refl _)
    have hlast : KeepsLine fd burnt { burnt with gNewKilledEsis := [], killedEsiFlag := false } :=
      .of_eq rfl rfl rfl rfl rfl
    exact (hspared.trans hloop).trans hlast
  · obtain rfl := Option.some.inj hburn
    exact .refl state

/-! ## Pending unlocks and requests -/

theorem keepsLine_unlockStored (hunlock : unlockStored state = some next) :
    KeepsLine fd state next := by
  obtain ⟨-, rfl⟩ | ⟨-, key, unlocked, -, hupdate, rfl⟩ := of_unlockStored hunlock
  · exact .refl _
  · have hlast : KeepsLine fd unlocked { unlocked with keyToUnlock := none } :=
      .of_eq rfl rfl rfl rfl rfl
    exact (keepsLine_updateBlockedEsiQueue hupdate).trans hlast

theorem keepsLine_unlockByConsole (hunlock : unlockByConsole state = some next) :
    KeepsLine fd state next := by
  obtain ⟨-, rfl⟩ | ⟨-, unlocked, hloop, rfl⟩ := of_unlockByConsole hunlock
  · exact .refl _
  · have hfold := PartialStep.foldlM_invariant (KeepsLine fd state)
      (fun hinv hstep => hinv.trans (keepsLine_updateBlockedEsiQueue hstep)) hloop (.refl state)
    have hlast : KeepsLine fd unlocked { unlocked with gLastUnlockedByConsoleKeys := [] } :=
      .of_eq rfl rfl rfl rfl rfl
    exact hfold.trans hlast

theorem keepsLine_updateNewEsiQueue (state : PlanificadorState config) :
    KeepsLine fd state (updateNewEsiQueue state) :=
  .of_append (fun hbefore => hbefore.entered) (List.Subset.refl _) (List.nil_subset _)
    (List.Subset.refl _) rfl rfl

/-- An ESI that blocks is another one. -/
theorem KeepsLine.of_block {request : EsiSexpectingKey} (hother : request.esiFd ≠ fd)
    (hrequests : next.gNewBlockedByConsoleEsis ⊆ state.gNewBlockedByConsoleEsis)
    (hnew : next.gNewQueue = state.gNewQueue)
    (hwaiting : next.gEsisSexpectingKeys = state.gEsisSexpectingKeys ++ [request])
    (hready : next.gReadyQueue.Sublist state.gReadyQueue)
    (hexecution : next.gExecutionQueue.Sublist state.gExecutionQueue) :
    KeepsLine fd state next where
  requests := hrequests
  readyAtMost hbefore := by
    refine ⟨(hready.count_le fd).trans hbefore.once, hnew ▸ hbefore.entered, ?_⟩
    rw [hwaiting]
    intro sexpecting hmem
    rcases List.mem_append.mp hmem with hmem | hmem
    · exact hbefore.awake sexpecting hmem
    · exact List.mem_singleton.mp hmem ▸ hother
  ready _ hmem := hready.subset hmem
  line hbefore hmem := hexecution.append (inFront_sublist hready hbefore.once hmem)

theorem keepsLine_blockByConsole {fromQueue : Queue} {request : EsiSexpectingKey}
    (hqueue : fromQueue = .ready ∨ fromQueue = .execution) (hother : request.esiFd ≠ fd)
    (hblock : blockByConsole state fromQueue request = some next) : KeepsLine fd state next := by
  obtain ⟨applied, rfl, -, happlied⟩ := of_blockByConsole hblock
  have hlast : KeepsLine fd applied { applied with
      gNewBlockedByConsoleEsis := listRemoveByCondition applied.gNewBlockedByConsoleEsis
        fun pending => pending.esiFd = request.esiFd } :=
    .of_sublist List.eraseP_subset (List.Subset.refl _) (List.Subset.refl _) (.refl _) (.refl _)
  refine .trans ?_ hlast
  obtain ⟨-, rfl⟩ | ⟨-, rfl⟩ := happlied
  · obtain rfl | rfl := hqueue
    · exact .of_block hother (List.Subset.refl _) rfl rfl (takeEsiAwayFromQueue_sublist _ _)
        (.refl _)
    · exact .of_block hother (List.Subset.refl _) rfl rfl (.refl _)
        (takeEsiAwayFromQueue_sublist _ _)
  · exact .of_eq rfl rfl rfl rfl rfl

/-- No pending request is about the ESI. -/
def NotRequested (fd : ℤ) (state : PlanificadorState config) : Prop :=
  ∀ request ∈ state.gNewBlockedByConsoleEsis, request.esiFd ≠ fd

theorem NotRequested.mono (hnone : NotRequested fd state) (hkeeps : KeepsLine fd state next) :
    NotRequested fd next := fun request hmem => hnone request (hkeeps.requests hmem)

theorem keepsLine_blockExecuting (hnone : NotRequested fd state)
    (hblock : blockExecuting state = some next) : KeepsLine fd state next := by
  simp only [blockExecuting] at hblock
  split at hblock
  · split at hblock
    · rename_i request hfind
      exact keepsLine_blockByConsole (.inr rfl) (hnone request (List.mem_of_find?_eq_some hfind))
        hblock
    · obtain rfl := Option.some.inj hblock
      exact .refl state
  · obtain rfl := Option.some.inj hblock
    exact .refl state

theorem keepsLine_blockReady {requests : List EsiSexpectingKey}
    (hothers : ∀ request ∈ requests, request.esiFd ≠ fd)
    (hblock : blockReady state requests = some next) : KeepsLine fd state next := by
  induction requests generalizing state with
  | nil =>
      obtain rfl := Option.some.inj hblock
      exact .refl state
  | cons request requests ih =>
      obtain ⟨middle, hfirst, hrest⟩ := Option.bind_eq_some_iff.mp hblock
      have hhead : KeepsLine fd state middle :=
        keepsLine_blockByConsole (.inl rfl) (hothers request List.mem_cons_self) hfirst
      exact hhead.trans (ih (fun other hmem => hothers other (List.mem_cons_of_mem _ hmem)) hrest)

theorem keepsLine_foldl_showEsiThatWasntBlocked (state : PlanificadorState config)
    (pending : List EsiSexpectingKey) :
    KeepsLine fd state (pending.foldl showEsiThatWasntBlocked state) := by
  induction pending generalizing state with
  | nil => exact .refl state
  | cons request pending ih =>
      have hshown : KeepsLine fd state (showEsiThatWasntBlocked state request) := by
        simp only [showEsiThatWasntBlocked]
        split
        · exact .refl state
        · split
          · exact .refl state
          · exact .of_eq rfl rfl rfl rfl rfl
      exact hshown.trans (ih _)

theorem keepsLine_blockIfRequested (hnone : NotRequested fd state)
    (hblock : blockIfRequested state = some next) : KeepsLine fd state next := by
  simp only [blockIfRequested] at hblock
  split at hblock
  · obtain ⟨first, second, hfirst, hsecond, rfl⟩ := of_blockByConsoleProcedure hblock
    have hexecuting := keepsLine_blockExecuting hnone hfirst
    have hready : KeepsLine fd first second := by
      refine keepsLine_blockReady (fun request hmem => ?_) hsecond
      exact hnone.mono hexecuting request (List.mem_of_mem_filter hmem)
    have hshown : KeepsLine fd second
        (second.gNewBlockedByConsoleEsis.foldl showEsiThatWasntBlocked second) :=
      keepsLine_foldl_showEsiThatWasntBlocked second _
    refine ((hexecuting.trans hready).trans hshown).trans ?_
    exact .of_sublist (List.nil_subset _) (List.Subset.refl _) (List.Subset.refl _) (.refl _)
      (.refl _)
  · obtain rfl := Option.some.inj hblock
    exact .refl state

theorem keepsLine_pendingUpdates {renews : PlanificadorState config → Bool}
    (hnone : NotRequested fd state) (hupdates : pendingUpdates renews state = some next) :
    KeepsLine fd state next := by
  obtain ⟨stored, unlocked, hstored, hunlocked, hblocked⟩ := of_pendingUpdates hupdates
  have hfirst : KeepsLine fd state unlocked :=
    (keepsLine_unlockStored hstored).trans (keepsLine_unlockByConsole hunlocked)
  have hsecond : KeepsLine fd unlocked
      (if renews unlocked then updateNewEsiQueue unlocked else unlocked) := by
    split
    · exact keepsLine_updateNewEsiQueue unlocked
    · exact .refl unlocked
  have hboth := hfirst.trans hsecond
  exact hboth.trans (keepsLine_blockIfRequested (hnone.mono hboth) hblocked)

/-! ## The executing ESI -/

theorem keepsLine_receiveExecutionResult {other : ℤ} {received : Received} {code : ExecutionResult}
    (hreceive : receiveExecutionResult state other received = some (next, code)) :
    KeepsLine fd state next := by
  obtain ⟨-, ⟨_, -, rfl⟩ | ⟨_, -, hsock⟩⟩ := of_receiveExecutionResult hreceive
  · exact .refl _
  · exact keepsLine_sockMyPort hsock

theorem keepsLine_rescheduleIfReady (state : PlanificadorState config) :
    KeepsLine fd state (rescheduleIfReady state) := by
  obtain ⟨flag, hflag⟩ := rescheduleIfReady_eq state
  rw [hflag]
  exact .of_eq rfl rfl rfl rfl rfl

theorem keepsLine_handleResult {other : ℤ} {result : ExecutionResult} {scriptEnd : Received}
    (hother : result = .iAmBlocked → other ≠ fd)
    (hhandle : handleResult state other result scriptEnd = some next) :
    KeepsLine fd state next := by
  cases result with
  | executionSuccess =>
      obtain ⟨logged, hlog, hrest⟩ := Option.bind_eq_some_iff.mp hhandle
      obtain ⟨rfl, -⟩ := of_logName hlog
      obtain ⟨⟨received, code⟩, hcode, hrest⟩ := Option.bind_eq_some_iff.mp hrest
      have hreceived : KeepsLine fd logged received := keepsLine_receiveExecutionResult hcode
      dsimp only at hrest
      split at hrest
      · rw [← Option.some.inj hrest]
        have hfinished : KeepsLine fd received { received with finishedEsiFlag := true } :=
          .of_eq rfl rfl rfl rfl rfl
        exact (hreceived.trans hfinished).trans (keepsLine_rescheduleIfReady _)
      · rw [← Option.some.inj hrest]
        exact hreceived
  | iAmBlocked =>
      obtain ⟨key, -, hrest⟩ := Option.bind_eq_some_iff.mp hhandle
      obtain ⟨estimated, hestimated, hrest⟩ := Option.bind_eq_some_iff.mp hrest
      obtain ⟨-, bursts, rfl, -⟩ := of_modifyInformation hestimated fun _ => rfl
      rw [← Option.some.inj hrest]
      have hblocked : KeepsLine fd state
          { moveEsiFromAndToQueue
            { state with gEsisSexpectingKeys := state.gEsisSexpectingKeys ++ [⟨other, key⟩] }
            .execution .blocked other with gEsiBursts := bursts } :=
        .of_block (hother rfl : (EsiSexpectingKey.mk other key).esiFd ≠ fd) (List.Subset.refl _)
          rfl rfl (.refl _) (takeEsiAwayFromQueue_sublist _ _)
      have hready := hblocked.trans (keepsLine_rescheduleIfReady _)
      exact hready.trans (.of_eq rfl rfl rfl rfl rfl)
  | iBrokeTheLaw =>
      obtain ⟨logged, hlog, hrest⟩ := Option.bind_eq_some_iff.mp hhandle
      obtain ⟨rfl, -⟩ := of_logName hlog
      obtain ⟨dead, hdead, hrest⟩ := Option.bind_eq_some_iff.mp hrest
      rw [← Option.some.inj hrest]
      exact (keepsLine_sockMyPort hdead).trans (keepsLine_rescheduleIfReady dead)
  | finishedScript | didntFinishScript | other =>
      obtain rfl := Option.some.inj hhandle
      rfl

theorem keepsLine_finishScript (hfinish : finishScript state = some next) :
    KeepsLine fd state next := by
  obtain ⟨released, key, hrelease, rfl⟩ := of_finishScript hfinish
  refine (keepsLine_releaseResources hrelease).trans ?_
  exact .of_sublist (List.Subset.refl _) (List.Subset.refl _) (List.Subset.refl _) (.refl _)
    (takeEsiAwayFromQueue_sublist _ _)

/-- Without preemption the executing ESI goes on. -/
theorem preempt_of_not_preemptive (hpre : config.algorithmIsPreemptive = false)
    (state : PlanificadorState config) : preempt state = state := by
  simp [preempt, hpre]

theorem keepsLine_settleResult {result scriptEnd : Received}
    (hpre : config.algorithmIsPreemptive = false) (hnone : NotRequested fd state)
    (hother : result.result = .iAmBlocked → state.executingEsi ≠ fd)
    (hsettle : settleResult state result scriptEnd = some next) : KeepsLine fd state next := by
  obtain ⟨received, burnt, hreceive, hburn, hend⟩ := of_settleResult hsettle
  obtain ⟨answered, hcode, hhandle⟩ := of_receiveResult hreceive
  have hread : KeepsLine fd state (answeredState state) := .of_eq rfl rfl rfl rfl rfl
  have hanswered := hread.trans (keepsLine_receiveExecutionResult hcode)
  have hreceived := hanswered.trans (keepsLine_handleResult hother hhandle)
  have hburnt := hreceived.trans (keepsLine_burnIfKilled hburn)
  refine hburnt.trans ?_
  obtain ⟨-, hfinish⟩ | ⟨-, hupdate⟩ := hend
  · exact keepsLine_finishScript hfinish
  · obtain ⟨-, rfl⟩ | ⟨-, updated, hupdates, rfl⟩ := of_updateQueues hupdate
    · exact .refl _
    · rw [preempt_of_not_preemptive hpre]
      exact keepsLine_pendingUpdates (hnone.mono hburnt) hupdates

/-! ## Choices -/

/-- With `FIFO` the head of the ready queue is chosen. -/
theorem head_of_scheduleEsis {scheduled : PlanificadorState config} {other : ℤ}
    (hfifo : config.schedulingAlgorithm = .fifo)
    (hschedule : scheduleEsis state = some (scheduled, other)) :
    scheduled = state ∧ ∃ rest, state.gReadyQueue = other :: rest := by
  simp only [scheduleEsis, hfifo] at hschedule
  obtain ⟨sorted, hsorted, hpick⟩ := Option.bind_eq_some_iff.mp hschedule
  obtain rfl := Option.some.inj hsorted
  obtain ⟨head, hhead, hnamed⟩ := Option.bind_eq_some_iff.mp hpick
  obtain ⟨logged, hlog, hpair⟩ := Option.bind_eq_some_iff.mp hnamed
  obtain ⟨rfl, -⟩ := of_logName hlog
  obtain ⟨rfl, rfl⟩ := Prod.mk.inj (Option.some.inj hpair)
  exact ⟨rfl, List.head?_eq_some_iff.mp hhead⟩

/-- The head of the ready queue goes on to the end of those that execute. -/
theorem keepsLine_dispatch {other : ℤ} {rest : List ℤ}
    (hhead : state.gReadyQueue = other :: rest) :
    KeepsLine fd state (moveEsiFromAndToQueue state .ready .execution other) := by
  have htaken : takeEsiAwayFromQueue state.gReadyQueue other = rest := by
    simp [takeEsiAwayFromQueue, hhead]
  have hsub : rest.Sublist state.gReadyQueue := hhead ▸ List.sublist_cons_self other rest
  refine ⟨List.Subset.refl _, fun hbefore => ⟨?_, hbefore.entered, hbefore.awake⟩,
    fun _ hmem => ?_, fun hbefore hmem => ?_⟩
  · have hle := hsub.count_le fd
    have honce := hbefore.once
    change (takeEsiAwayFromQueue state.gReadyQueue other).count fd ≤ 1
    rw [htaken]
    omega
  · change fd ∈ takeEsiAwayFromQueue state.gReadyQueue other at hmem
    exact hsub.subset (htaken ▸ hmem)
  · change fd ∈ takeEsiAwayFromQueue state.gReadyQueue other at hmem
    change (state.gExecutionQueue ++ [other] ++
      inFront fd (takeEsiAwayFromQueue state.gReadyQueue other)).Sublist _
    rw [htaken] at hmem ⊢
    have hne : other ≠ fd := fun hsame => by
      have honce := hbefore.once
      rw [hhead, hsame, List.count_cons_self] at honce
      have hpos := List.count_pos_iff.mpr hmem
      omega
    rw [PlanificadorState.lineBefore, hhead, inFront_cons_of_ne hne, List.append_assoc]
    exact .refl _

theorem keepsLine_authorizeWith {unreachable : List ℤ} {other : ℤ}
    {again : PlanificadorState config → Option (PlanificadorState config)}
    (hagain : ∀ dead, again dead = some next → KeepsLine fd dead next)
    (hauthorize : authorizeWith again unreachable state other = some next) :
    KeepsLine fd state next := by
  simp only [authorizeWith] at hauthorize
  split at hauthorize
  · obtain ⟨-, bursts, rfl, -⟩ := of_modifyInformation hauthorize fun _ => rfl
    exact .of_eq rfl rfl rfl rfl rfl
  · obtain ⟨dead, hdead, hrest⟩ := Option.bind_eq_some_iff.mp hauthorize
    have hnobody : KeepsLine fd dead { dead with executingEsi := -1 } :=
      .of_eq rfl rfl rfl rfl rfl
    exact ((keepsLine_sockMyPort hdead).trans hnobody).trans (hagain _ hrest)

theorem keepsLine_rescheduleWithin {unreachable : List ℤ} {fuel : ℕ}
    (hfifo : config.schedulingAlgorithm = .fifo)
    (hchoose : rescheduleWithin unreachable fuel state = some next) : KeepsLine fd state next := by
  induction fuel generalizing state next with
  | zero => cases hchoose
  | succ fuel ih =>
      obtain ⟨⟨scheduled, other⟩, hschedule, hrest⟩ := Option.bind_eq_some_iff.mp hchoose
      obtain ⟨rfl, rest, hhead⟩ := head_of_scheduleEsis hfifo hschedule
      obtain ⟨waited, hwaited, hrest⟩ := Option.bind_eq_some_iff.mp hrest
      obtain ⟨-, bursts, rfl, -⟩ := of_modifyInformation hwaited fun _ => rfl
      obtain ⟨authorized, hauthorize, hrest⟩ := Option.bind_eq_some_iff.mp hrest
      rw [← Option.some.inj hrest]
      have hdispatched : KeepsLine fd scheduled
          { moveEsiFromAndToQueue scheduled .ready .execution other with gEsiBursts := bursts } :=
        (keepsLine_dispatch hhead).trans (.of_eq rfl rfl rfl rfl rfl)
      have hauthorized := hdispatched.trans
        (keepsLine_authorizeWith (fun dead hdead => ih hdead) hauthorize)
      exact hauthorized.trans (.of_eq rfl rfl rfl rfl rfl)

theorem keepsLine_chooseNext {unreachable : List ℤ} (hfifo : config.schedulingAlgorithm = .fifo)
    (hchoose : chooseNext state unreachable = some next) : KeepsLine fd state next := by
  simp only [chooseNext] at hchoose
  split at hchoose
  · exact keepsLine_rescheduleWithin hfifo hchoose
  · split at hchoose
    · exact keepsLine_authorizeWith
        (fun dead hdead => keepsLine_rescheduleWithin hfifo hdead) hchoose
    · obtain rfl := Option.some.inj hchoose
      exact .refl state

/-! ## Events -/

/-- A ready ESI is nowhere else. -/
theorem readyAtMost_of_mem (hinv : PartitionInvariant state) (hready : fd ∈ state.gReadyQueue) :
    ReadyAtMost fd state ∧ fd ∉ state.gExecutionQueue := by
  have hle : state.gNewQueue.count fd + state.gReadyQueue.count fd +
      state.gExecutionQueue.count fd + state.gBlockedQueue.count fd ≤ 1 := by
    have hle := hinv.partitioned.count_le_one fd
    simpa [PlanificadorState.dispatcher] using hle
  have hpos := List.count_pos_iff.mpr hready
  refine ⟨⟨by omega, List.count_eq_zero.mp (by omega), fun sexpecting hmem hsame => ?_⟩,
    List.count_eq_zero.mp (by omega)⟩
  have hblocked : fd ∈ state.dispatcher.blocked := by
    rw [← hinv.partitioned.waiting]
    refine Multiset.mem_coe.mpr (List.mem_map.mpr ⟨sexpecting.wait, ?_, hsame⟩)
    exact List.mem_map_of_mem hmem
  have hcount := List.count_pos_iff.mpr (Multiset.mem_coe.mp hblocked)
  omega

/-- An ESI that reports in order that it is blocked is executing. -/
theorem mem_gExecutionQueue_of_iAmBlocked {result scriptEnd : Received}
    {meanwhile : List Command} {unreachable : List ℤ} (hinv : PartitionInvariant state)
    (horderly :
      orderlyEvent state (.executingEsi result scriptEnd meanwhile unreachable) = true)
    (hbranch : executingEsiBranch state result scriptEnd meanwhile unreachable = some next)
    (hblocked : result.result = .iAmBlocked) : state.executingEsi ∈ state.gExecutionQueue := by
  obtain ⟨-, choice, hchoice, -⟩ := of_executingEsiBranch hbranch
  obtain ⟨settled, resumed, hsettle, -, -⟩ := of_choiceState hchoice
  obtain ⟨received, burnt, hreceive, -, -⟩ := of_settleResult hsettle
  obtain ⟨answered, hcode, hhandle⟩ := of_receiveResult hreceive
  rw [hblocked] at hhandle
  obtain ⟨key, hkey, -⟩ := Option.bind_eq_some_iff.mp hhandle
  rw [lastKeyInquired_of_receive hcode] at hkey
  obtain ⟨rest, hoperations, -⟩ := exists_settles_executingEsiOperations state result scriptEnd
    meanwhile unreachable
  have hact : Performs state [.act state.executingEsi] (answeredState state) :=
    .single fun _ => congrArg some (dispatcher_endTurn _ _).symm
  have hperforms := hact.cons (performs_receiveExecutionResult hcode)
  have hsplit : operations state (.executingEsi result scriptEnd meanwhile unreachable) =
      (.act state.executingEsi :: lossOperations state.executingEsi result) ++
        .block state.executingEsi key :: rest := by
    rw [operations, hoperations, receiveOperations, hblocked, resultOperations, hkey]
    simp
  rw [orderlyEvent, hsplit] at horderly
  have hok := PartialStep.ok_of_allows_append horderly (hperforms hinv.genuine)
  have hrunning : state.executingEsi ∈ answered.gExecutionQueue :=
    Multiset.mem_coe.mp (of_decide_eq_true hok)
  obtain ⟨-, ⟨_, -, rfl⟩ | ⟨_, -, hsock⟩⟩ := of_receiveExecutionResult hcode
  · exact hrunning
  · rw [gExecutionQueue_of_sockMyPort hsock] at hrunning
    exact (takeEsiAwayFromQueue_sublist _ _).subset hrunning

/-- While an ESI waits in the ready queue: the event is orderly and chooses well, and no
request to block the ESI is pending. -/
def waitsInLine (fd : ℤ) (state : PlanificadorState config) (event : Event) : Bool :=
  orderlyEvent state event && choosesWell state event && state.gReadyQueue.contains fd &&
    state.gNewBlockedByConsoleEsis.all fun request => request.esiFd ≠ fd

theorem queues_foldl_executeCommand (fd : ℤ) (commands : List Command)
    (state : PlanificadorState config) :
    (commands.foldl executeCommand state).gReadyQueue = state.gReadyQueue ∧
      (commands.foldl executeCommand state).lineBefore fd = state.lineBefore fd ∧
      (ReadyAtMost fd state → ReadyAtMost fd (commands.foldl executeCommand state)) := by
  induction commands generalizing state with
  | nil => exact ⟨rfl, rfl, id⟩
  | cons command commands ih =>
      obtain ⟨hready, hline, hkept⟩ := ih (executeCommand state command)
      obtain ⟨_, _, _, _, _, _, _, heq⟩ := executeCommand_eq state command
      rw [List.foldl_cons, hready, hline]
      refine ⟨by rw [heq], by rw [heq]; rfl, fun hbefore => hkept ?_⟩
      rw [heq]
      exact ⟨hbefore.once, hbefore.entered, hbefore.awake⟩

/-- Whatever the branch of the executing ESI does, nobody gets into the line. -/
theorem keepsLine_executingEsiBranch {result scriptEnd : Received} {meanwhile : List Command}
    {unreachable : List ℤ} (hfifo : config.schedulingAlgorithm = .fifo)
    (hnone : NotRequested fd state)
    (hother : result.result = .iAmBlocked → state.executingEsi ≠ fd)
    (hbranch : executingEsiBranch state result scriptEnd meanwhile unreachable = some next) :
    ReadyAtMost fd state → fd ∈ next.gReadyQueue →
      (next.lineBefore fd).Sublist (state.lineBefore fd) := by
  have hpre : config.algorithmIsPreemptive = false := by simp [Config.algorithmIsPreemptive, hfifo]
  obtain ⟨-, choice, hchoice, hchoose⟩ := of_executingEsiBranch hbranch
  obtain ⟨settled, resumed, hsettle, hresumed, rfl⟩ := of_choiceState hchoice
  obtain ⟨commands, rfl⟩ := of_waitWhilePaused hresumed
  have hsettled : KeepsLine fd state settled := keepsLine_settleResult hpre hnone hother hsettle
  -- the commands that were typed meanwhile add requests, which nobody looks at before the choice
  have hchosen : KeepsLine fd _ next := keepsLine_chooseNext hfifo hchoose
  obtain ⟨hready, hline, hkept⟩ := queues_foldl_executeCommand fd commands
    { settled with finishedEsiFlag := false }
  intro hbefore hmem
  have hsettledBefore := hsettled.readyAtMost hbefore
  have htyped := hkept ⟨hsettledBefore.once, hsettledBefore.entered, hsettledBefore.awake⟩
  have hchoiceBefore : ReadyAtMost fd (updateWaitingTimeOfReadyEsis
      (commands.foldl executeCommand { settled with finishedEsiFlag := false })) :=
    ⟨htyped.once, htyped.entered, htyped.awake⟩
  have hchoiceReady : fd ∈ settled.gReadyQueue := hready ▸ hchosen.ready hchoiceBefore hmem
  refine (hchosen.line hchoiceBefore hmem).trans ?_
  refine .trans ?_ (hsettled.line hbefore hchoiceReady)
  exact hline ▸ .refl _

theorem keepsLine_endOfTurn {unreachable : List ℤ} (hfifo : config.schedulingAlgorithm = .fifo)
    (hnone : NotRequested fd state) (hturn : endOfTurn state unreachable = some next) :
    KeepsLine fd state next := by
  obtain ⟨-, rfl⟩ | ⟨-, idle, hidle, hend⟩ := of_endOfTurn hturn
  · exact .refl _
  · obtain ⟨burnt, hburn, hupdates⟩ := Option.bind_eq_some_iff.mp hidle
    have hburnt : KeepsLine fd state burnt := keepsLine_burnIfKilled hburn
    have hkept := hburnt.trans (keepsLine_pendingUpdates (hnone.mono hburnt) hupdates)
    obtain ⟨-, rfl⟩ | ⟨-, hchoose⟩ := hend
    · exact hkept
    · exact hkept.trans (keepsLine_rescheduleWithin hfifo hchoose)

/-- A choice serves the first of the line, or nobody. -/
theorem exists_serves_of_chosen {line : List ℤ} (hchosen : Chosen state next)
    (hline : (next.lineBefore fd).Sublist line) :
    ∃ served, next.orders = state.orders ++ served ∧ Serves line served (next.lineBefore fd) := by
  refine ⟨next.outstanding, hchosen.orders, ?_⟩
  have hleft : Serves line [] (next.lineBefore fd) := .leave (.refl line) hline
  rw [hchosen.one.outstanding]
  obtain hempty | ⟨hone, -⟩ := hchosen.one.single
  · rw [hempty]
    exact hleft
  · rw [PlanificadorState.lineBefore, hone] at hleft ⊢
    exact .serve hleft

/-- **One event serves the line in its order**: while an ESI waits, `PROTOCOL_PE_EXEC` is
sent to the first of the line or to nobody, and nobody gets into the line. -/
theorem exists_serves_of_mainStep {event : Event} (hfifo : config.schedulingAlgorithm = .fifo)
    (hinv : PartitionInvariant state) (hone : OneExecuting state)
    (hwaits : waitsInLine fd state event = true)
    (hstep : mainStep config state event = some next) (hready : fd ∈ next.gReadyQueue) :
    ∃ served, next.orders = state.orders ++ served ∧
      Serves (state.lineBefore fd) served (next.lineBefore fd) := by
  simp only [waitsInLine, Bool.and_eq_true, List.contains_iff_mem, List.all_eq_true,
    decide_eq_true_eq] at hwaits
  obtain ⟨⟨⟨horderly, hwell⟩, hbefore⟩, hnone⟩ := hwaits
  obtain ⟨hat, hnot⟩ := readyAtMost_of_mem hinv hbefore
  have hquiet : next.orders = state.orders → next.lineBefore fd = state.lineBefore fd →
      ∃ served, next.orders = state.orders ++ served ∧
        Serves (state.lineBefore fd) served (next.lineBefore fd) := fun horders hline =>
    ⟨[], by rw [horders, List.append_nil], hline ▸ .refl _⟩
  cases event with
  | newClient newClientFd handshake =>
      simp only [mainStep, newClient] at hstep
      split at hstep
      · cases hstep
      · rw [← Option.some.inj hstep] at hquiet ⊢
        cases handshake <;> exact hquiet rfl rfl
  | coordinator message =>
      obtain ⟨⟨next, answer⟩, hbranch, rfl⟩ := Option.map_eq_some_iff.mp hstep
      obtain ⟨_, _, _, _, _, rfl⟩ := of_coordinatorBranch hbranch
      exact hquiet rfl rfl
  | executingEsi result scriptEnd meanwhile unreachable =>
      have hother : result.result = .iAmBlocked → state.executingEsi ≠ fd :=
        fun hblocked hsame =>
          hnot (hsame ▸ mem_gExecutionQueue_of_iAmBlocked hinv horderly hstep hblocked)
      exact exists_serves_of_chosen (chosen_executingEsiBranch hone hwell hstep)
        (keepsLine_executingEsiBranch hfifo hnone hother hstep hat hready)
  | endOfTurn unreachable =>
      have hkeeps : KeepsLine fd state next := keepsLine_endOfTurn hfifo hnone hstep
      obtain rfl | ⟨-, hchosen⟩ := chosen_endOfTurn hone hwell hstep
      · exact hquiet rfl rfl
      · exact exists_serves_of_chosen hchosen (hkeeps.line hat hready)
  | console command =>
      obtain rfl := Option.some.inj hstep
      obtain ⟨_, _, _, _, _, _, _, heq⟩ := executeCommand_eq state command
      rw [heq] at hquiet ⊢
      exact hquiet rfl rfl

/-! ## The result -/

/-- A state that orderly events reach which choose well. -/
def ReachedInOrder (state : PlanificadorState config) : Prop :=
  (mainStep config).Reaches
    (fun state event => (orderlyEvent state event && choosesWell state event) = true)
    (PlanificadorState.init config) state

theorem ReachedInOrder.invariants (hreached : ReachedInOrder state) :
    PartitionInvariant state ∧ OneExecuting state := by
  obtain ⟨events, hrun⟩ := hreached
  refine hrun.invariant (fun state => PartitionInvariant state ∧ OneExecuting state) ?_
    ⟨partitionInvariant_init config, oneExecuting_init config⟩
  intro state event next hinv hok hstep
  obtain ⟨horderly, hwell⟩ := Bool.and_eq_true_iff.mp hok
  exact ⟨hinv.1.mainStep horderly hstep, oneExecuting_mainStep hinv.2 hwell hstep⟩

/-- **First come, first served.** While an ESI waits in the ready queue, the statements that
the scheduler authorises fall into turns: one for each ESI of the line before it at most,
in the order of the line, and none for anybody else. What is left of the line at the end
was in it at the beginning. -/
theorem exists_turns_of_runs {start finish : PlanificadorState config} {events : List Event}
    (hfifo : config.schedulingAlgorithm = .fifo) (hreached : ReachedInOrder start)
    (hrun : (mainStep config).Runs (fun state event => waitsInLine fd state event = true)
      start events finish)
    (hready : fd ∈ finish.gReadyQueue) :
    (∃ turns : List (ℤ × ℕ), finish.orders = start.orders ++ services turns ∧
      (turns.map Prod.fst).Sublist (start.lineBefore fd)) ∧
      (finish.lineBefore fd).Sublist (start.lineBefore fd) := by
  have hinvariant : PartitionInvariant finish ∧ OneExecuting finish ∧
      (fd ∈ finish.gReadyQueue → ∃ served, finish.orders = start.orders ++ served ∧
        Serves (start.lineBefore fd) served (finish.lineBefore fd)) := by
    refine hrun.invariant (fun state => PartitionInvariant state ∧ OneExecuting state ∧
      (fd ∈ state.gReadyQueue → ∃ served, state.orders = start.orders ++ served ∧
        Serves (start.lineBefore fd) served (state.lineBefore fd))) ?_ ?_
    · rintro state event next ⟨hinv, hone, hserved⟩ hwaits hstep
      have hparts := hwaits
      simp only [waitsInLine, Bool.and_eq_true, List.contains_iff_mem] at hparts
      obtain ⟨⟨⟨horderly, hwell⟩, hbefore⟩, -⟩ := hparts
      refine ⟨hinv.mainStep horderly hstep, oneExecuting_mainStep hone hwell hstep, fun hmem => ?_⟩
      obtain ⟨served, horders, hserves⟩ := hserved hbefore
      obtain ⟨more, horders', hserves'⟩ :=
        exists_serves_of_mainStep hfifo hinv hone hwaits hstep hmem
      exact ⟨served ++ more, by rw [horders', horders, List.append_assoc],
        hserves.trans hserves'⟩
    · obtain ⟨hinv, hone⟩ := hreached.invariants
      exact ⟨hinv, hone, fun _ => ⟨[], (List.append_nil _).symm, .refl _⟩⟩
  obtain ⟨-, -, hserved⟩ := hinvariant
  obtain ⟨served, horders, hserves⟩ := hserved hready
  obtain ⟨turns, rfl, hturns⟩ := hserves.exists_turns
  exact ⟨⟨turns, horders, hturns⟩, hserves.sublist⟩

/-- The first of three ESIs executes another two statements and ends; then the second has its
turn, while the third waits. -/
theorem exists_turns_of_runs_three :
    ∃ start finish : PlanificadorState (smallConfig .fifo), start.lineBefore 12 = [10, 11] ∧
      finish.orders = start.orders ++ [10, 10, 11] ∧ finish.lineBefore 12 = [11] ∧
      (∃ turns : List (ℤ × ℕ), finish.orders = start.orders ++ services turns ∧
        (turns.map Prod.fst).Sublist (start.lineBefore 12)) ∧
      (finish.lineBefore 12).Sublist (start.lineBefore 12) := by
  obtain ⟨start, hbefore, hstart⟩ := PartialStep.exists_run_of_execute
    ((mainStep (smallConfig .fifo)).guarded
      fun state event => orderlyEvent state event && choosesWell state event)
    (PlanificadorState.init _)
    [.newClient 10 true, .newClient 11 true, .newClient 12 true, .endOfTurn []]
    (fun start : PlanificadorState (smallConfig .fifo) =>
      decide (start.lineBefore 12 = [10, 11]) &&
      (((mainStep (smallConfig .fifo)).guarded (waitsInLine 12)).execute start
        [.executingEsi (.code .executionSuccess) (.code .didntFinishScript) [] [],
          .executingEsi (.code .executionSuccess) (.code .didntFinishScript) [] [],
          .executingEsi (.code .executionSuccess) (.code .finishedScript) [] []]).any
        fun finish : PlanificadorState (smallConfig .fifo) =>
          decide (12 ∈ finish.gReadyQueue ∧ finish.orders = start.orders ++ [10, 10, 11] ∧
            finish.lineBefore 12 = [11])) (by decide)
  simp only [Bool.and_eq_true, decide_eq_true_eq] at hstart
  obtain ⟨hline, hlater⟩ := hstart
  obtain ⟨finish, hlater, hfinish⟩ := PartialStep.exists_run_of_execute _ _ _ _ hlater
  obtain ⟨hready, horders, hrest⟩ := of_decide_eq_true hfinish
  exact ⟨start, finish, hline, horders, hrest, exists_turns_of_runs rfl
    ⟨_, PartialStep.runs_of_guarded hbefore⟩ (PartialStep.runs_of_guarded hlater) hready⟩

end SockMyPort.Planificador
