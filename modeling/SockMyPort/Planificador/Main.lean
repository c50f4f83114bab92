/-
# The main loop of the scheduler

One event of the loop: a ready socket, the end of a turn, or a console command
that is typed between two of them. The branch of the executing ESI is cut into
the stages that its source has: what the result itself does, the pending kills,
the pending unlocks and new ESIs, and the choice of the next ESI.
-/

import SockMyPort.Planificador.Planificador
import SockMyPort.Library.Runs

namespace SockMyPort.Planificador

open SockMyPort.Commons Library

variable {config : Config}

/-! ## Console -/

/-- `consola.c`: `pause_scheduler`, `resume_scheduler`, `lock_process`,
`unlock_process` and `kill_process`. -/
def executeCommand (state : PlanificadorState config) : Command → PlanificadorState config
  | .pausar => { state with schedulerPausedFlag := true }
  | .continuar => { state with schedulerPausedFlag := false }
  | .bloquear key pid =>
      { state with
        blockEsiByConsoleFlag := true
        gNewBlockedByConsoleEsis := state.gNewBlockedByConsoleEsis ++
          [⟨obtainEsiFdByEsiPid state.gEsiBursts pid, key⟩] }
  | .desbloquear key =>
      { state with
        unlockEsiByConsoleFlag := true
        gLastUnlockedByConsoleKeys := state.gLastUnlockedByConsoleKeys ++ [key] }
  | .kill pid =>
      let flagged := { state with killedEsiFlag := true }
      let pfd := obtainEsiFdByEsiPid state.gEsiBursts pid
      if pfd = -1 then flagged
      else { flagged with gNewKilledEsis := flagged.gNewKilledEsis ++ [pfd] }

/-! ## Connections -/

/-- The branch of the listener. A client whose handshake fails is disconnected
and then added like any other. -/
def newClient (state : PlanificadorState config) (newClientFd : ℤ) (handshake : Bool) :
    Option (PlanificadorState config) :=
  -- `accept` returns a socket that is not open
  if state.connectedFds.contains newClientFd || decide (newClientFd < 0) then none
  else
    let connected := { state with connectedFds := state.connectedFds ++ [newClientFd] }
    let greeted := if handshake then connected else removeFd connected newClientFd
    some { greeted with
      gNewQueue := greeted.gNewQueue ++ [newClientFd]
      gEsiBursts := greeted.gEsiBursts ++
        [createEsiInformation config newClientFd greeted.esiNumericArrivalOrder]
      newEsiFlag := true
      rescheduleFlag := if config.algorithmIsPreemptive then true else greeted.rescheduleFlag
      esiNumericArrivalOrder := greeted.esiNumericArrivalOrder + 1 }

/-! ## The coordinator -/

/-- `sem_wait(&mutex_coordinador)`; at zero the loop does not go on. -/
def semWait (state : PlanificadorState config) : Option (PlanificadorState config) :=
  match state.mutexCoordinador with
  | 0 => none
  | count + 1 => some { state with mutexCoordinador := count }

/-- `sem_post(&mutex_coordinador)`. -/
def semPost (state : PlanificadorState config) : PlanificadorState config :=
  { state with mutexCoordinador := state.mutexCoordinador + 1 }

/-- `add_new_key_blocker`: the owner is the head of the execution queue. -/
def addNewKeyBlocker (state : PlanificadorState config) (blockedKey : CString) :
    Option (PlanificadorState config) :=
  match state.gExecutionQueue with
  | executing :: _ =>
      some { state with gLockedKeys := state.gLockedKeys ++ [⟨blockedKey, executing⟩] }
  | [] => none

/-- The branch of the coordinator, with the answer that it sends. -/
def coordinatorBranch (state : PlanificadorState config) :
    CoordinatorMessage → Option (PlanificadorState config × Option CoordinatorAnswer)
  | .isThisKeyBlocked key => do
      let entered ← semWait state
      let inquired := { entered with lastKeyInquired := some key }
      -- the semaphore is not given back when the key is blocked
      if determineIfKeyIsBlocked key inquired.gLockedKeys then some (inquired, some .keyIsBlocked)
      else some (semPost inquired, some .keyIsNotBlocked)
  | .isKeyBlockedByExecutingEsi => do
      let key ← state.lastKeyInquired
      let response ← keyIsBlockedByExecutingEsi state key
      if response then
        some (semPost { state with lastKeyInquired := none }, some .keyBlockedByExecutingEsi)
      else some (semPost state, some .keyNotBlockedByExecutingEsi)
  | .blockKey => do
      let entered ← semWait state
      let key ← entered.lastKeyInquired
      let blocked ← addNewKeyBlocker entered key
      some (semPost { blocked with lastKeyInquired := none }, some .keyBlockedSuccesfully)
  | .unlockKey key => do
      let entered ← semWait state
      some (semPost { entered with keyToUnlock := some key, updateBlockedEsiQueueFlag := true },
        some .keyUnlockedSuccesfully)
  | .keyStatus => do
      let entered ← semWait state
      some (semPost entered, none)

/-! ## The executing ESI -/

/-- `receive_execution_result`: when nothing can be read the ESI is dead, and the
code is whatever the variable held. -/
def receiveExecutionResult (state : PlanificadorState config) (fd : ℤ) :
    Received → Option (PlanificadorState config × ExecutionResult)
  | .code result => some (state, result)
  | .failure garbage => (sockMyPort state fd).map fun dead => (dead, garbage)

/-- Ask for a new choice when some ESI is ready. -/
def rescheduleIfReady (state : PlanificadorState config) : PlanificadorState config :=
  if state.gReadyQueue.isEmpty then state else { state with rescheduleFlag := true }

/-- The `switch` over the result. -/
def handleResult (state : PlanificadorState config) (fd : ℤ) (result : ExecutionResult)
    (scriptEnd : Received) : Option (PlanificadorState config) :=
  match result with
  | .executionSuccess => do
      let logged ← logName state fd
      let (received, scriptEnd) ← receiveExecutionResult logged fd scriptEnd
      if scriptEnd = .finishedScript then
        some (rescheduleIfReady { received with finishedEsiFlag := true })
      else some received
  | .iAmBlocked => do
      let key ← state.lastKeyInquired
      let waiting :=
        { state with gEsisSexpectingKeys := state.gEsisSexpectingKeys ++ [⟨fd, key⟩] }
      let moved := moveEsiFromAndToQueue waiting .execution .blocked fd
      let estimated ← updateEsiInformationNextEstimatedBurst moved fd
      some { rescheduleIfReady estimated with lastKeyInquired := none }
  | .iBrokeTheLaw => do
      let logged ← logName state fd
      let dead ← sockMyPort logged fd
      some (rescheduleIfReady dead)
  | _ => some state

/-- Read the result of the executing ESI and do what it asks for. -/
def receiveResult (state : PlanificadorState config) (result scriptEnd : Received) :
    Option (PlanificadorState config) := do
  let fd := state.executingEsi
  let (received, code) ← receiveExecutionResult
    (endTurn { state with outstanding := state.outstanding.filter fun other => other ≠ fd } fd)
    fd result
  handleResult received fd code scriptEnd

/-- The pending kills. -/
def burnIfKilled (state : PlanificadorState config) : Option (PlanificadorState config) :=
  if state.killedEsiFlag then burnEsiCorpses state state.executingEsi else some state

/-- The end of a script. A pending unlock is about a key of the ESI that finishes
or is forgotten. -/
def finishScript (state : PlanificadorState config) : Option (PlanificadorState config) := do
  let fd := state.executingEsi
  let logged ← logName state fd
  let flagToSaveTheDay := logged.updateBlockedEsiQueueFlag
  let released ← releaseResources logged fd
  let freed ←
    if flagToSaveTheDay then
      released.keyToUnlock.map fun _ => { released with keyToUnlock := none }
    else some released
  some { moveEsiFromAndToQueue freed .execution .finished fd with executingEsi := -1 }

/-- The pending unlock of a STORE. -/
def unlockStored (state : PlanificadorState config) : Option (PlanificadorState config) :=
  if state.updateBlockedEsiQueueFlag then do
    let key ← state.keyToUnlock
    let unlocked ← updateBlockedEsiQueue state key .updateBlockedEsiQueue true
    some { unlocked with keyToUnlock := none }
  else some state

/-- The pending unlocks of the console. -/
def unlockByConsole (state : PlanificadorState config) : Option (PlanificadorState config) :=
  if state.unlockEsiByConsoleFlag then do
    let unlocked ← state.gLastUnlockedByConsoleKeys.foldlM
      (fun state key => updateBlockedEsiQueue state key .unlockEsiByConsole false) state
    some { unlocked with gLastUnlockedByConsoleKeys := [] }
  else some state

/-- The pending requests to block. -/
def blockIfRequested (state : PlanificadorState config) : Option (PlanificadorState config) :=
  if state.blockEsiByConsoleFlag then blockByConsoleProcedure state else some state

/-- Take the executing ESI back to the ready queue when another choice is due. -/
def preempt (state : PlanificadorState config) : PlanificadorState config :=
  if config.algorithmIsPreemptive && !state.finishedEsiFlag && state.rescheduleFlag then
    moveEsiFromAndToQueue state .execution .ready state.executingEsi
  else state

/-- The updates after a statement that was not the last one. Requests to block,
and preemption, are looked at only together with some other update. -/
def updateQueues (state : PlanificadorState config) : Option (PlanificadorState config) :=
  if state.updateBlockedEsiQueueFlag || state.newEsiFlag || state.unlockEsiByConsoleFlag then do
    let stored ← unlockStored state
    let unlocked ← unlockByConsole stored
    let renewed := if unlocked.newEsiFlag then updateNewEsiQueue unlocked else unlocked
    let blocked ← blockIfRequested renewed
    some (preempt blocked)
  else some state

/-- Sleep while the scheduler is paused. -/
def waitWhilePaused (state : PlanificadorState config) (meanwhile : List Command) :
    Option (PlanificadorState config) :=
  if state.schedulerPausedFlag then
    let typed := meanwhile.foldl executeCommand state
    if typed.schedulerPausedFlag then none else some typed
  else some state

/-- Choose an ESI, or let the executing one go on. -/
def chooseNext (state : PlanificadorState config) (unreachable : List ℤ) :
    Option (PlanificadorState config) :=
  if state.rescheduleFlag && !state.gReadyQueue.isEmpty then reschedule unreachable state
  else
    match state.gExecutionQueue with
    | executing :: _ => authorizeEsiExecution unreachable state executing
    | [] => some state

/-- Everything up to the choice of the next ESI. -/
def settleResult (state : PlanificadorState config) (result scriptEnd : Received) :
    Option (PlanificadorState config) := do
  let received ← receiveResult state result scriptEnd
  let burnt ← burnIfKilled received
  if burnt.finishedEsiFlag then finishScript burnt else updateQueues burnt

/-- The branch of the executing ESI. Only connected sockets are watched. -/
def executingEsiBranch (state : PlanificadorState config) (result scriptEnd : Received)
    (meanwhile : List Command) (unreachable : List ℤ) : Option (PlanificadorState config) :=
  if state.connectedFds.contains state.executingEsi then do
    let settled ← settleResult state result scriptEnd
    let resumed ← waitWhilePaused { settled with finishedEsiFlag := false } meanwhile
    chooseNext (updateWaitingTimeOfReadyEsis resumed) unreachable
  else none

/-! ## The end of a turn -/

/-- What is done at the end of a turn when no ESI is executing. -/
def endOfTurn (state : PlanificadorState config) (unreachable : List ℤ) :
    Option (PlanificadorState config) :=
  if state.gExecutionQueue.isEmpty && !state.schedulerPausedFlag then do
    let burnt ← burnIfKilled state
    let stored ← unlockStored burnt
    let unlocked ← unlockByConsole stored
    let renewed :=
      if unlocked.newEsiFlag && !unlocked.gNewQueue.isEmpty then updateNewEsiQueue unlocked
      else unlocked
    let blocked ← blockIfRequested renewed
    if blocked.gReadyQueue.isEmpty then some blocked else reschedule unreachable blocked
  else some state

/-! ## The loop -/

/-- One event. -/
def mainStep (config : Config) : PartialStep (PlanificadorState config) Event := fun state event =>
  match event with
  | .newClient newClientFd handshake => newClient state newClientFd handshake
  | .coordinator message => (coordinatorBranch state message).map Prod.fst
  | .executingEsi result scriptEnd meanwhile unreachable =>
      executingEsiBranch state result scriptEnd meanwhile unreachable
  | .endOfTurn unreachable => endOfTurn state unreachable
  | .console command => some (executeCommand state command)

/-! ## A small scheduler -/

/-- Whole numbers in the place of floating point numbers. -/
def wholeNumbers : FloatArithmetic where
  Float := ℤ
  ofInt := id
  add := (· + ·)
  sub := (· - ·)
  mul := (· * ·)
  div := (· / ·)
  le estimation1 estimation2 := decide (estimation1 ≤ estimation2)
  eq estimation1 estimation2 := decide (estimation1 = estimation2)

/-- A scheduler without configured keys, with an initial estimation of five. -/
def smallConfig (schedulingAlgorithm : SchedulingAlgorithm) : Config where
  arithmetic := wholeNumbers
  schedulingAlgorithm := schedulingAlgorithm
  alpha := (1 : ℤ)
  initialEstimation := (5 : ℤ)
  blockedKeys := []
  sort := insertionListSort

/-- The key `k`. -/
def keyK : CString := [⟨107, by decide⟩]

/-- The key `j`. -/
def keyJ : CString := [⟨106, by decide⟩]

end SockMyPort.Planificador
