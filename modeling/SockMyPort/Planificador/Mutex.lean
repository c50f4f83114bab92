/-
# Who uses `mutex_coordinador`

Between a question of the coordinator and its second question the scheduler keeps the
semaphore. Nothing but the branch of the coordinator waits for it or posts it.
-/

import SockMyPort.Planificador.Frame

namespace SockMyPort.Planificador

open SockMyPort.Commons Library

variable {config : Config} {state next : PlanificadorState config} {fd : ℤ}

/-- The semaphore has the value that it had. -/
def KeepsMutex (state next : PlanificadorState config) : Prop :=
  next.mutexCoordinador = state.mutexCoordinador

namespace KeepsMutex

@[refl]
theorem refl (state : PlanificadorState config) : KeepsMutex state state := rfl

theorem trans {middle : PlanificadorState config} (hfirst : KeepsMutex state middle)
    (hsecond : KeepsMutex middle next) : KeepsMutex state next := Eq.trans hsecond hfirst

end KeepsMutex

/-! ## Waking and burying -/

theorem keepsMutex_clear (state : PlanificadorState config) (flag : UnblockFlag) :
    KeepsMutex state (state.clear flag) := by
  cases flag <;> rfl

theorem keepsMutex_updateBlockedEsiQueue {key : CString} {flag : UnblockFlag} {wasAStore : Bool}
    (hupdate : updateBlockedEsiQueue state key flag wasAStore = some next) :
    KeepsMutex state next := by
  obtain ⟨-, rfl⟩ | ⟨-, -, rfl⟩ := of_updateBlockedEsiQueue hupdate
  · exact keepsMutex_clear (freedState state key) flag
  · exact keepsMutex_clear (wokenState state key wasAStore _) flag

theorem keepsMutex_releaseKeys {keys : List CString} (hkeys : releaseKeys state keys = some next) :
    KeepsMutex state next :=
  PartialStep.foldlM_invariant (KeepsMutex state)
    (fun hinv hstep => hinv.trans (keepsMutex_updateBlockedEsiQueue hstep)) hkeys (.refl state)

theorem keepsMutex_releaseResources (hrelease : releaseResources state fd = some next) :
    KeepsMutex state next := by
  obtain ⟨-, released, hkeys, rfl⟩ := of_releaseResources hrelease
  have hreleased := keepsMutex_releaseKeys hkeys
  exact hreleased

theorem keepsMutex_sockMyPort (hsock : sockMyPort state fd = some next) :
    KeepsMutex state next := by
  obtain ⟨-, released, hkeys, rfl⟩ := of_sockMyPort hsock
  have hreleased := keepsMutex_releaseKeys hkeys
  exact hreleased

theorem keepsMutex_burnIfKilled (hburn : burnIfKilled state = some next) :
    KeepsMutex state next := by
  simp only [burnIfKilled] at hburn
  split at hburn
  · obtain ⟨burnt, hburnt, rfl⟩ := of_burnEsiCorpses hburn
    have hloop := PartialStep.foldlM_invariant
      (KeepsMutex { state with gNewKilledEsis := condemned state })
      (fun hinv hstep => hinv.trans (keepsMutex_sockMyPort hstep)) hburnt (.refl _)
    exact hloop
  · obtain rfl := Option.some.inj hburn
    exact .refl state

/-! ## Pending unlocks and requests -/

theorem keepsMutex_blockByConsole {fromQueue : Queue} {request : EsiSexpectingKey}
    (hblock : blockByConsole state fromQueue request = some next) : KeepsMutex state next := by
  obtain ⟨applied, rfl, -, ⟨-, rfl⟩ | ⟨-, rfl⟩⟩ := of_blockByConsole hblock
  · cases fromQueue <;> rfl
  · rfl

theorem keepsMutex_blockExecuting (hblock : blockExecuting state = some next) :
    KeepsMutex state next := by
  simp only [blockExecuting] at hblock
  split at hblock
  · split at hblock
    · exact keepsMutex_blockByConsole hblock
    · obtain rfl := Option.some.inj hblock
      exact .refl state
  · obtain rfl := Option.some.inj hblock
    exact .refl state

theorem keepsMutex_foldl_showEsiThatWasntBlocked (state : PlanificadorState config)
    (pending : List EsiSexpectingKey) :
    KeepsMutex state (pending.foldl showEsiThatWasntBlocked state) := by
  induction pending generalizing state with
  | nil => exact .refl state
  | cons request pending ih =>
      have hshown : KeepsMutex state (showEsiThatWasntBlocked state request) := by
        simp only [showEsiThatWasntBlocked]
        split
        · rfl
        · split <;> rfl
      exact hshown.trans (ih _)

theorem keepsMutex_blockIfRequested (hblock : blockIfRequested state = some next) :
    KeepsMutex state next := by
  simp only [blockIfRequested] at hblock
  split at hblock
  · obtain ⟨first, second, hfirst, hsecond, rfl⟩ := of_blockByConsoleProcedure hblock
    have hready : KeepsMutex first second := PartialStep.foldlM_invariant (KeepsMutex first)
      (fun hinv hstep => hinv.trans (keepsMutex_blockByConsole hstep)) hsecond (.refl first)
    have hshown := keepsMutex_foldl_showEsiThatWasntBlocked second second.gNewBlockedByConsoleEsis
    exact ((keepsMutex_blockExecuting hfirst).trans hready).trans hshown
  · obtain rfl := Option.some.inj hblock
    exact .refl state

theorem keepsMutex_pendingUpdates {renews : PlanificadorState config → Bool}
    (hupdates : pendingUpdates renews state = some next) : KeepsMutex state next := by
  obtain ⟨stored, unlocked, hstored, hunlocked, hblocked⟩ := of_pendingUpdates hupdates
  have hfirst : KeepsMutex state stored := by
    obtain ⟨-, rfl⟩ | ⟨-, key, unlocked, -, hupdate, rfl⟩ := of_unlockStored hstored
    · exact .refl _
    · have hupdated := keepsMutex_updateBlockedEsiQueue hupdate
      exact hupdated
  have hsecond : KeepsMutex stored unlocked := by
    obtain ⟨-, rfl⟩ | ⟨-, unlocked, hloop, rfl⟩ := of_unlockByConsole hunlocked
    · exact .refl _
    · have hfold := PartialStep.foldlM_invariant (KeepsMutex stored)
        (fun hinv hstep => hinv.trans (keepsMutex_updateBlockedEsiQueue hstep)) hloop (.refl stored)
      exact hfold
  have hthird := keepsMutex_blockIfRequested hblocked
  refine (hfirst.trans hsecond).trans (.trans ?_ hthird)
  split
  · rfl
  · exact .refl unlocked

/-! ## The executing ESI -/

theorem keepsMutex_receiveExecutionResult {received : Received} {code : ExecutionResult}
    (hreceive : receiveExecutionResult state fd received = some (next, code)) :
    KeepsMutex state next := by
  obtain ⟨-, ⟨_, -, rfl⟩ | ⟨_, -, hsock⟩⟩ := of_receiveExecutionResult hreceive
  · exact .refl _
  · exact keepsMutex_sockMyPort hsock

theorem keepsMutex_rescheduleIfReady (state : PlanificadorState config) :
    KeepsMutex state (rescheduleIfReady state) := by
  obtain ⟨flag, hflag⟩ := rescheduleIfReady_eq state
  rw [hflag]
  rfl

theorem keepsMutex_handleResult {result : ExecutionResult} {scriptEnd : Received}
    (hhandle : handleResult state fd result scriptEnd = some next) : KeepsMutex state next := by
  cases result with
  | executionSuccess =>
      obtain ⟨logged, hlog, hrest⟩ := Option.bind_eq_some_iff.mp hhandle
      obtain ⟨rfl, -⟩ := of_logName hlog
      obtain ⟨⟨received, code⟩, hcode, hrest⟩ := Option.bind_eq_some_iff.mp hrest
      have hreceived := keepsMutex_receiveExecutionResult hcode
      dsimp only at hrest
      split at hrest
      · rw [← Option.some.inj hrest]
        exact hreceived.trans
          (keepsMutex_rescheduleIfReady { received with finishedEsiFlag := true })
      · rw [← Option.some.inj hrest]
        exact hreceived
  | iAmBlocked =>
      obtain ⟨key, -, hrest⟩ := Option.bind_eq_some_iff.mp hhandle
      obtain ⟨estimated, hestimated, hrest⟩ := Option.bind_eq_some_iff.mp hrest
      obtain ⟨-, bursts, rfl, -⟩ := of_modifyInformation hestimated fun _ => rfl
      rw [← Option.some.inj hrest]
      exact keepsMutex_rescheduleIfReady _
  | iBrokeTheLaw =>
      obtain ⟨logged, hlog, hrest⟩ := Option.bind_eq_some_iff.mp hhandle
      obtain ⟨rfl, -⟩ := of_logName hlog
      obtain ⟨dead, hdead, hrest⟩ := Option.bind_eq_some_iff.mp hrest
      rw [← Option.some.inj hrest]
      exact (keepsMutex_sockMyPort hdead).trans (keepsMutex_rescheduleIfReady dead)
  | finishedScript | didntFinishScript | other =>
      obtain rfl := Option.some.inj hhandle
      rfl

theorem keepsMutex_settleResult {result scriptEnd : Received}
    (hsettle : settleResult state result scriptEnd = some next) : KeepsMutex state next := by
  obtain ⟨received, burnt, hreceive, hburn, hend⟩ := of_settleResult hsettle
  obtain ⟨answered, hcode, hhandle⟩ := of_receiveResult hreceive
  have hanswered := keepsMutex_receiveExecutionResult hcode
  have hread : KeepsMutex state answered := hanswered
  refine (hread.trans (keepsMutex_handleResult hhandle)).trans
    ((keepsMutex_burnIfKilled hburn).trans ?_)
  obtain ⟨-, hfinish⟩ | ⟨-, hupdate⟩ := hend
  · obtain ⟨released, key, hrelease, rfl⟩ := of_finishScript hfinish
    have hreleased := keepsMutex_releaseResources hrelease
    exact hreleased
  · obtain ⟨-, rfl⟩ | ⟨-, updated, hupdates, rfl⟩ := of_updateQueues hupdate
    · exact .refl _
    · refine (keepsMutex_pendingUpdates hupdates).trans ?_
      rw [preempt]
      split <;> rfl

/-! ## Choices -/

theorem keepsMutex_authorizeWith {unreachable : List ℤ}
    {again : PlanificadorState config → Option (PlanificadorState config)}
    (hagain : ∀ dead, again dead = some next → KeepsMutex dead next)
    (hauthorize : authorizeWith again unreachable state fd = some next) :
    KeepsMutex state next := by
  simp only [authorizeWith] at hauthorize
  split at hauthorize
  · obtain ⟨-, bursts, rfl, -⟩ := of_modifyInformation hauthorize fun _ => rfl
    rfl
  · obtain ⟨dead, hdead, hrest⟩ := Option.bind_eq_some_iff.mp hauthorize
    exact (keepsMutex_sockMyPort hdead).trans (hagain { dead with executingEsi := -1 } hrest)

theorem keepsMutex_rescheduleWithin {unreachable : List ℤ} {fuel : ℕ}
    (hchoose : rescheduleWithin unreachable fuel state = some next) : KeepsMutex state next := by
  induction fuel generalizing state next with
  | zero => cases hchoose
  | succ fuel ih =>
      obtain ⟨⟨scheduled, fd⟩, hschedule, hrest⟩ := Option.bind_eq_some_iff.mp hchoose
      obtain ⟨ready, -, -, -, rfl⟩ := perm_of_scheduleEsis hschedule
      obtain ⟨waited, hwaited, hrest⟩ := Option.bind_eq_some_iff.mp hrest
      obtain ⟨-, bursts, rfl, -⟩ := of_modifyInformation hwaited fun _ => rfl
      obtain ⟨authorized, hauthorize, hrest⟩ := Option.bind_eq_some_iff.mp hrest
      rw [← Option.some.inj hrest]
      have hauthorized := keepsMutex_authorizeWith (fun dead hdead => ih hdead) hauthorize
      exact hauthorized

theorem keepsMutex_chooseNext {unreachable : List ℤ}
    (hchoose : chooseNext state unreachable = some next) : KeepsMutex state next := by
  simp only [chooseNext] at hchoose
  split at hchoose
  · exact keepsMutex_rescheduleWithin hchoose
  · split at hchoose
    · exact keepsMutex_authorizeWith (fun dead hdead => keepsMutex_rescheduleWithin hdead) hchoose
    · obtain rfl := Option.some.inj hchoose
      exact .refl state

/-! ## Events -/

theorem keepsMutex_foldl_executeCommand (state : PlanificadorState config)
    (commands : List Command) : KeepsMutex state (commands.foldl executeCommand state) := by
  induction commands generalizing state with
  | nil => exact .refl state
  | cons command commands ih =>
      obtain ⟨_, _, _, _, _, _, _, heq⟩ := executeCommand_eq state command
      rw [List.foldl_cons, heq]
      exact ih _

/-- **An event that is no message of the coordinator** leaves the semaphore alone. -/
theorem keepsMutex_mainStep {event : Event} (hother : ∀ message, event ≠ .coordinator message)
    (hmain : mainStep config state event = some next) : KeepsMutex state next := by
  cases event with
  | newClient newClientFd handshake =>
      simp only [mainStep, newClient] at hmain
      split at hmain
      · cases hmain
      · rw [← Option.some.inj hmain]
        cases handshake <;> rfl
  | coordinator message => exact absurd rfl (hother message)
  | executingEsi result scriptEnd meanwhile unreachable =>
      obtain ⟨-, choice, hchoice, hchoose⟩ := of_executingEsiBranch hmain
      obtain ⟨settled, resumed, hsettle, hresumed, rfl⟩ := of_choiceState hchoice
      obtain ⟨commands, rfl⟩ := of_waitWhilePaused hresumed
      have hpaused := keepsMutex_foldl_executeCommand
        { settled with finishedEsiFlag := false } commands
      have hchosen := keepsMutex_chooseNext hchoose
      exact ((keepsMutex_settleResult hsettle).trans hpaused).trans hchosen
  | endOfTurn unreachable =>
      obtain ⟨-, rfl⟩ | ⟨-, idle, hidle, hend⟩ := of_endOfTurn hmain
      · exact .refl _
      · obtain ⟨burnt, hburn, hupdates⟩ := Option.bind_eq_some_iff.mp hidle
        refine ((keepsMutex_burnIfKilled hburn).trans (keepsMutex_pendingUpdates hupdates)).trans ?_
        obtain ⟨-, rfl⟩ | ⟨-, hchoose⟩ := hend
        · exact .refl _
        · exact keepsMutex_rescheduleWithin hchoose
  | console command =>
      obtain rfl := Option.some.inj hmain
      obtain ⟨_, _, _, _, _, _, _, heq⟩ := executeCommand_eq state command
      rw [heq]
      rfl

end SockMyPort.Planificador
