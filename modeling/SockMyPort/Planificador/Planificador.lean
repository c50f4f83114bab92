/-
# The functions of the scheduler

The functions of `planificador.c` below its main loop. A function returns `none`
where the program reads through a null or freed pointer; many do, because they
look up the name of an ESI for the log.
-/

import SockMyPort.Planificador.State

namespace SockMyPort.Planificador

open SockMyPort.Commons

variable {config : Config}

/-! ## Information about ESIs -/

/-- `create_esi_information`. -/
def createEsiInformation (config : Config) (esiId esiNumericName : ℤ) : EsiInformation config where
  esiId := esiId
  esiNumericName := esiNumericName
  lastEstimatedBurst := config.initialEstimation
  lastRealBurst := 0
  waitedBursts := 0

/-- `obtain_esi_information_by_id`. -/
def obtainEsiInformationById (bursts : List (EsiInformation config)) (esiFd : ℤ) :
    Option (EsiInformation config) :=
  bursts.find? fun information => information.esiId = esiFd

/-- `obtain_esi_fd_by_esi_pid`. -/
def obtainEsiFdByEsiPid (bursts : List (EsiInformation config)) (esiPid : ℤ) : ℤ :=
  match bursts.find? fun information => information.esiNumericName = esiPid with
  | some information => information.esiId
  | none => -1

/-- Change the information that `obtain_esi_information_by_id` points to. -/
def updateInformation (esiFd : ℤ) (update : EsiInformation config → EsiInformation config) :
    List (EsiInformation config) → List (EsiInformation config)
  | [] => []
  | information :: bursts =>
      if information.esiId = esiFd then update information :: bursts
      else information :: updateInformation esiFd update bursts

/-- Change the information of an ESI; without information the program reads
through a null pointer. -/
def modifyInformation (state : PlanificadorState config) (esiFd : ℤ)
    (update : EsiInformation config → EsiInformation config) :
    Option (PlanificadorState config) :=
  match obtainEsiInformationById state.gEsiBursts esiFd with
  | some _ => some { state with gEsiBursts := updateInformation esiFd update state.gEsiBursts }
  | none => none

/-- Read the name of an ESI, as every log line about it does. -/
def logName (state : PlanificadorState config) (esiFd : ℤ) : Option (PlanificadorState config) :=
  match obtainEsiInformationById state.gEsiBursts esiFd with
  | some _ => some state
  | none => none

/-- `next_estimated_burst_sjf`. -/
def nextEstimatedBurstSjf (arithmetic : FloatArithmetic) (alpha : arithmetic.Float)
    (lastRealBurst : ℤ) (lastEstimatedBurst : arithmetic.Float) : arithmetic.Float :=
  arithmetic.add (arithmetic.mul alpha (arithmetic.ofInt lastRealBurst))
    (arithmetic.mul (arithmetic.sub (arithmetic.ofInt 1) alpha) lastEstimatedBurst)

/-- `next_estimated_burst_hrrn`. -/
def nextEstimatedBurstHrrn (arithmetic : FloatArithmetic) (waitedTime : ℤ)
    (nextServiceTime : arithmetic.Float) : arithmetic.Float :=
  arithmetic.add (arithmetic.ofInt 1)
    (arithmetic.div (arithmetic.ofInt waitedTime) nextServiceTime)

/-- `update_esi_information_next_estimated_burst`. -/
def updateEsiInformationNextEstimatedBurst (state : PlanificadorState config) (esiFd : ℤ) :
    Option (PlanificadorState config) :=
  modifyInformation state esiFd fun information =>
    { information with
      lastEstimatedBurst := nextEstimatedBurstSjf config.arithmetic config.alpha
        information.lastRealBurst information.lastEstimatedBurst
      lastRealBurst := 0
      waitedBursts := 0 }

/-- `set_waiting_time_to_zero`. -/
def setWaitingTimeToZero (state : PlanificadorState config) (esiFd : ℤ) :
    Option (PlanificadorState config) :=
  modifyInformation state esiFd fun information => { information with waitedBursts := 0 }

/-- `update_executing_esi`. -/
def updateExecutingEsi (state : PlanificadorState config) (esiFd : ℤ) :
    Option (PlanificadorState config) :=
  modifyInformation state esiFd fun information =>
    { information with lastRealBurst := information.lastRealBurst + 1 }

/-- `update_waiting_time_of_ready_esis`. -/
def updateWaitingTimeOfReadyEsis (state : PlanificadorState config) : PlanificadorState config :=
  { state with
    gEsiBursts := state.gEsiBursts.map fun information =>
      if state.gReadyQueue.any fun esiFd => esiFd = information.esiId then
        { information with waitedBursts := information.waitedBursts + 1 }
      else information }

/-! ## Queues -/

/-- `take_esi_away_from_queue`. -/
def takeEsiAwayFromQueue (queue : List ℤ) (esiFd : ℤ) : List ℤ :=
  listRemoveByCondition queue fun esi => esi = esiFd

/-- `move_esi_from_and_to_queue`: the ESI is added to the second queue whether or
not it was in the first. -/
def moveEsiFromAndToQueue (state : PlanificadorState config) (fromQueue toQueue : Queue)
    (esiFd : ℤ) : PlanificadorState config :=
  let taken := state.setQueue fromQueue (takeEsiAwayFromQueue (state.queue fromQueue) esiFd)
  taken.setQueue toQueue (taken.queue toQueue ++ [esiFd])

/-- Forget that an ESI was woken. -/
def endTurn (state : PlanificadorState config) (esiFd : ℤ) : PlanificadorState config :=
  { state with turns := state.turns.filter fun turn => turn.esiFd ≠ esiFd }

/-- `remove_fd`: a closed socket owes no answer. -/
def removeFd (state : PlanificadorState config) (fd : ℤ) : PlanificadorState config :=
  endTurn { state with
    connectedFds := state.connectedFds.filter fun other => other ≠ fd
    outstanding := state.outstanding.filter fun other => other ≠ fd } fd

/-! ## Keys -/

/-- `determine_if_key_is_blocked`. -/
def determineIfKeyIsBlocked (blockedKey : CString) (lockedKeys : List KeyBlocker) : Bool :=
  lockedKeys.any fun blocker => blocker.key = blockedKey

/-- `key_is_blocked_by_executing_esi`. The head of the execution queue is read
for the nodes of the key only. -/
def keyIsBlockedByExecutingEsi (state : PlanificadorState config) (key : CString) : Option Bool :=
  match state.gExecutionQueue with
  | executing :: _ =>
      some (state.gLockedKeys.any fun blocker => blocker.key = key && blocker.esiId = executing)
  | [] => if determineIfKeyIsBlocked key state.gLockedKeys then none else some false

/-- `remove_blocked_key_from_list`. -/
def removeBlockedKeyFromList (state : PlanificadorState config) (unlockedKey : CString) :
    PlanificadorState config :=
  { state with
    gLockedKeys := listRemoveByCondition state.gLockedKeys fun blocker =>
      blocker.key = unlockedKey }

/-- `unlock_esi`: the first ESI that waits for the key, or `-1`, and the list
without its first node. -/
def unlockEsi (esisSexpectingKeys : List EsiSexpectingKey) (unlockedKey : CString) :
    ℤ × List EsiSexpectingKey :=
  let esiFdToUnlock :=
    match esisSexpectingKeys.find? fun sexpecting => sexpecting.key = unlockedKey with
    | some sexpecting => sexpecting.esiFd
    | none => -1
  (esiFdToUnlock,
    listRemoveByCondition esisSexpectingKeys fun sexpecting => sexpecting.esiFd = esiFdToUnlock)

/-- `update_blocked_esi_queue`. -/
def updateBlockedEsiQueue (state : PlanificadorState config) (lastKeyInquired : CString)
    (flag : UnblockFlag) (wasAStore : Bool) : Option (PlanificadorState config) :=
  let (esiUnlocked, sexpecting) := unlockEsi state.gEsisSexpectingKeys lastKeyInquired
  let taken := { state with gEsisSexpectingKeys := sexpecting }
  if esiUnlocked = -1 then some ((removeBlockedKeyFromList taken lastKeyInquired).clear flag)
  else do
    let moved := moveEsiFromAndToQueue taken .blocked .ready esiUnlocked
    let logged ← logName
      { moved with
        unblocked := moved.unblocked ++ [⟨esiUnlocked, lastKeyInquired⟩]
        turns :=
          if wasAStore then moved.turns ++ [⟨esiUnlocked, lastKeyInquired⟩] else moved.turns }
      esiUnlocked
    let freed := if wasAStore then removeBlockedKeyFromList logged lastKeyInquired else logged
    let flagged :=
      if config.algorithmIsPreemptive then { freed with rescheduleFlag := true } else freed
    some (flagged.clear flag)

/-- `update_new_esi_queue`. -/
def updateNewEsiQueue (state : PlanificadorState config) : PlanificadorState config :=
  { state with
    gReadyQueue := state.gReadyQueue ++ state.gNewQueue
    gNewQueue := []
    rescheduleFlag := if config.algorithmIsPreemptive then true else state.rescheduleFlag
    newEsiFlag := false }

/-- The keys that an ESI owns, in the order of the list of locked keys. -/
def keysOf (lockedKeys : List KeyBlocker) (esiFd : ℤ) : List CString :=
  (lockedKeys.filter fun blocker => blocker.esiId = esiFd).map KeyBlocker.key

/-- The loop of `release_resources` over the keys of the ESI. -/
def releaseKeys (state : PlanificadorState config) (keys : List CString) :
    Option (PlanificadorState config) :=
  keys.foldlM (fun state key => updateBlockedEsiQueue state key .updateBlockedEsiQueue true) state

/-- `release_resources`. -/
def releaseResources (state : PlanificadorState config) (esiFd : ℤ) :
    Option (PlanificadorState config) := do
  let logged ← logName state esiFd
  let released ← releaseKeys logged (keysOf logged.gLockedKeys esiFd)
  let closed := removeFd
    { released with
      gEsisSexpectingKeys := listRemoveByCondition released.gEsisSexpectingKeys fun sexpecting =>
        sexpecting.esiFd = esiFd } esiFd
  some { closed with
    gLockedKeys := listRemoveByCondition closed.gLockedKeys fun blocker => blocker.esiId = esiFd
    gEsiBursts := listRemoveByCondition closed.gEsiBursts fun information =>
      information.esiId = esiFd }

/-- `bury_esi`, after the search for the dead ESI. -/
def buryEsi (state : PlanificadorState config) (queue : Queue) (esiFd : ℤ) :
    PlanificadorState config :=
  if (state.queue queue).contains esiFd then moveEsiFromAndToQueue state queue .finished esiFd
  else state

/-- `sock_my_port`: the ESI died or is killed. -/
def sockMyPort (state : PlanificadorState config) (esiFd : ℤ) :
    Option (PlanificadorState config) := do
  let logged ← logName state esiFd
  let buried := buryEsi (buryEsi (buryEsi (buryEsi logged .new esiFd) .ready esiFd)
    .execution esiFd) .blocked esiFd
  let released ← releaseResources buried esiFd
  some (removeFd released esiFd)

/-- The last part of `burn_esi_corpses`: kill the ESIs on the list. -/
def sockMyPorts (state : PlanificadorState config) (esis : List ℤ) :
    Option (PlanificadorState config) :=
  esis.foldlM sockMyPort state

/-- `burn_esi_corpses`. An ESI that has just finished is not killed. -/
def burnEsiCorpses (state : PlanificadorState config) (executingEsi : ℤ) :
    Option (PlanificadorState config) := do
  let spared ←
    if state.gNewKilledEsis.contains executingEsi && state.finishedEsiFlag then
      (logName state executingEsi).map fun logged =>
        { logged with
          gNewKilledEsis := listRemoveByCondition logged.gNewKilledEsis fun killedEsi =>
            killedEsi = executingEsi }
    else some state
  let burnt ← sockMyPorts spared spared.gNewKilledEsis
  some { burnt with gNewKilledEsis := [], killedEsiFlag := false }

/-! ## Blocking by console -/

/-- Block an ESI that is in a queue, or let it take the key when it is free: the
body that `block_by_console_procedure` has twice. The name in the log is read in
both cases. -/
def blockByConsole (state : PlanificadorState config) (fromQueue : Queue)
    (request : EsiSexpectingKey) : Option (PlanificadorState config) := do
  let applied ←
    if determineIfKeyIsBlocked request.key state.gLockedKeys then
      logName
        (endTurn
          (moveEsiFromAndToQueue
            { state with gEsisSexpectingKeys := state.gEsisSexpectingKeys ++ [request] }
            fromQueue .blocked request.esiFd) request.esiFd) request.esiFd
    else
      logName
        { state with gLockedKeys := state.gLockedKeys ++ [⟨request.key, request.esiFd⟩] }
        request.esiFd
  some { applied with
    gNewBlockedByConsoleEsis := listRemoveByCondition applied.gNewBlockedByConsoleEsis
      fun pending => pending.esiFd = request.esiFd }

/-- The first part of `block_by_console_procedure`: the executing ESI. -/
def blockExecuting (state : PlanificadorState config) : Option (PlanificadorState config) :=
  match state.gExecutionQueue with
  | executing :: _ =>
      match state.gNewBlockedByConsoleEsis.find? fun pending => pending.esiFd = executing with
      | some request => blockByConsole state .execution request
      | none => some state
  | [] => some state

/-- The requests that are about ESIs in the ready queue. -/
def readyRequests (state : PlanificadorState config) : List EsiSexpectingKey :=
  state.gNewBlockedByConsoleEsis.filter fun pending => state.gReadyQueue.contains pending.esiFd

/-- The loop over the requests about ready ESIs, collected before it starts. -/
def blockReady (state : PlanificadorState config) (requests : List EsiSexpectingKey) :
    Option (PlanificadorState config) :=
  requests.foldlM (fun state request => blockByConsole state .ready request) state

/-- What is done with a request that is left over: a free key whose ESI does not
exist is taken by the system. -/
def showEsiThatWasntBlocked (state : PlanificadorState config) (pending : EsiSexpectingKey) :
    PlanificadorState config :=
  match obtainEsiInformationById state.gEsiBursts pending.esiFd with
  | some _ => state
  | none =>
      if determineIfKeyIsBlocked pending.key state.gLockedKeys then state
      else { state with gLockedKeys := state.gLockedKeys ++ [⟨pending.key, -1⟩] }

/-- `block_by_console_procedure`. -/
def blockByConsoleProcedure (state : PlanificadorState config) :
    Option (PlanificadorState config) := do
  let first ← blockExecuting state
  let second ← blockReady first (readyRequests first)
  let third := second.gNewBlockedByConsoleEsis.foldl showEsiThatWasntBlocked second
  some { third with gNewBlockedByConsoleEsis := [], blockEsiByConsoleFlag := false }

/-! ## Scheduling -/

/-- The estimation that the shortest-job algorithms compare. -/
def estimation (information : EsiInformation config) : config.arithmetic.Float :=
  if information.lastRealBurst = 0 then information.lastEstimatedBurst
  else config.arithmetic.sub information.lastEstimatedBurst
    (config.arithmetic.ofInt information.lastRealBurst)

/-- The comparator of the shortest-job algorithms. -/
def shorterEstimation (state : PlanificadorState config) (esiFd1 esiFd2 : ℤ) : Bool :=
  match obtainEsiInformationById state.gEsiBursts esiFd1,
      obtainEsiInformationById state.gEsiBursts esiFd2 with
  | some esi1, some esi2 =>
      if config.arithmetic.eq (estimation esi1) (estimation esi2) &&
          esiFd2 = state.executingEsi then
        false
      else config.arithmetic.le (estimation esi1) (estimation esi2)
  | _, _ => false

/-- The comparator of the highest response ratio. -/
def higherResponseRatio (state : PlanificadorState config) (esiFd1 esiFd2 : ℤ) : Bool :=
  match obtainEsiInformationById state.gEsiBursts esiFd1,
      obtainEsiInformationById state.gEsiBursts esiFd2 with
  | some esi1, some esi2 =>
      config.arithmetic.le
        (nextEstimatedBurstHrrn config.arithmetic esi2.waitedBursts esi2.lastEstimatedBurst)
        (nextEstimatedBurstHrrn config.arithmetic esi1.waitedBursts esi1.lastEstimatedBurst)
  | _, _ => false

/-- Sort the ready queue. The comparators and the log read the information of
every ESI in it. -/
def sortReadyQueue (state : PlanificadorState config) (comparator : ℤ → ℤ → Bool) :
    Option (PlanificadorState config) :=
  if state.gReadyQueue.all fun esiFd =>
      (obtainEsiInformationById state.gEsiBursts esiFd).isSome then
    some { state with gReadyQueue := config.sort.listSort comparator state.gReadyQueue }
  else none

/-- `schedule_esis`: the ESI to execute, and the state with the ready queue in the
order that the algorithm gave it. -/
def scheduleEsis (state : PlanificadorState config) : Option (PlanificadorState config × ℤ) := do
  let sorted ←
    match config.schedulingAlgorithm with
    | .fifo => some state
    | .sjfcd | .sjfsd => sortReadyQueue state (shorterEstimation state)
    | .hrrn => sortReadyQueue state (higherResponseRatio state)
  let esiFd ← sorted.gReadyQueue.head?
  let logged ← logName sorted esiFd
  some (logged, esiFd)

/-- Whether `send` succeeds on a socket; it never does on a closed one. -/
def canReach (unreachable : List ℤ) (state : PlanificadorState config) (esiFd : ℤ) : Bool :=
  state.connectedFds.contains esiFd && !unreachable.contains esiFd

/-- `authorize_esi_execution`, given the call of `reschedule` that it makes when
the ESI cannot be reached. -/
def authorizeWith (reschedule : PlanificadorState config → Option (PlanificadorState config))
    (unreachable : List ℤ) (state : PlanificadorState config) (esiFd : ℤ) :
    Option (PlanificadorState config) :=
  if canReach unreachable state esiFd then
    updateExecutingEsi
      { state with
        outstanding := state.outstanding ++ [esiFd]
        orders := state.orders ++ [esiFd] } esiFd
  else do
    let dead ← sockMyPort state esiFd
    reschedule { dead with executingEsi := -1 }

/-- `reschedule`. Every nested call has lost one ESI, so that as many calls as
there are ESIs, and one more, are enough. The executing ESI is set after the
authorisation, also when that chose another one. -/
def rescheduleWithin (unreachable : List ℤ) :
    ℕ → PlanificadorState config → Option (PlanificadorState config)
  | 0, _ => none
  | fuel + 1, state => do
      let (scheduled, esiFdToExecute) ← scheduleEsis state
      let moved := moveEsiFromAndToQueue scheduled .ready .execution esiFdToExecute
      let waited ← setWaitingTimeToZero moved esiFdToExecute
      let authorized ← authorizeWith (rescheduleWithin unreachable fuel) unreachable waited
        esiFdToExecute
      some { authorized with executingEsi := esiFdToExecute, rescheduleFlag := false }

/-- `reschedule`, with enough calls. -/
def reschedule (unreachable : List ℤ) (state : PlanificadorState config) :
    Option (PlanificadorState config) :=
  rescheduleWithin unreachable (state.gEsiBursts.length + 1) state

/-- `authorize_esi_execution`, as the main loop calls it. -/
def authorizeEsiExecution (unreachable : List ℤ) (state : PlanificadorState config) (esiFd : ℤ) :
    Option (PlanificadorState config) :=
  authorizeWith (reschedule unreachable) unreachable state esiFd

end SockMyPort.Planificador
