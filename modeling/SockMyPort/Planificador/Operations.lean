/-
# The scheduler as a dispatcher

Forgetting the control variables, a state of the scheduler is a state of the
abstract dispatcher whose system is `-1`. Every event of the main loop performs a
list of operations of the dispatcher, which is computed from the state by the
functions of the scheduler themselves.
-/

import SockMyPort.Planificador.Frame
import SockMyPort.Library.Partition

namespace SockMyPort.Planificador

open SockMyPort.Commons Library

variable {config : Config} {state next : PlanificadorState config} {fd : ℤ}

/-! ## The abstraction -/

/-- The node of a locked key. -/
def KeyBlocker.hold (blocker : KeyBlocker) : Hold CString ℤ := ⟨blocker.key, blocker.esiId⟩

/-- The node of an ESI that waits. -/
def EsiSexpectingKey.wait (sexpecting : EsiSexpectingKey) : Wait CString ℤ :=
  ⟨sexpecting.esiFd, sexpecting.key⟩

/-- The dispatcher behind a scheduler. -/
def PlanificadorState.dispatcher (state : PlanificadorState config) : Dispatcher CString ℤ where
  held := state.gLockedKeys.map KeyBlocker.hold
  waiting := state.gEsisSexpectingKeys.map EsiSexpectingKey.wait
  known := (state.ids : Multiset ℤ)
  connected := (state.connectedFds : Multiset ℤ)
  fresh := (state.gNewQueue : Multiset ℤ)
  ready := (state.gReadyQueue : Multiset ℤ)
  running := (state.gExecutionQueue : Multiset ℤ)
  blocked := (state.gBlockedQueue : Multiset ℤ)
  turns := state.turns.map EsiSexpectingKey.wait
  woken := state.unblocked.map EsiSexpectingKey.wait

/-- The operations on keys that the scheduler performs; `-1` is no ESI. -/
abbrev KeyOperation := Operation CString ℤ

/-- One operation of the scheduler. -/
abbrev performKey : PartialStep (Dispatcher CString ℤ) KeyOperation := Dispatcher.perform (-1)

@[simp]
theorem coe_takeEsiAwayFromQueue (queue : List ℤ) (fd : ℤ) :
    ((takeEsiAwayFromQueue queue fd : List ℤ) : Multiset ℤ) = (queue : Multiset ℤ).erase fd :=
  Dispatcher.coe_eraseP queue fd

theorem firstWaiter_dispatcher (state : PlanificadorState config) (key : CString) :
    state.dispatcher.firstWaiter key =
      (state.gEsisSexpectingKeys.find? fun sexpecting => sexpecting.key = key).map
        EsiSexpectingKey.esiFd := by
  simp only [Dispatcher.firstWaiter, PlanificadorState.dispatcher, List.find?_map, Option.map_map]
  rfl

theorem keys_dispatcher (state : PlanificadorState config) :
    state.dispatcher.keys = state.gLockedKeys.map KeyBlocker.key := by
  simp only [Dispatcher.keys, PlanificadorState.dispatcher, List.map_map]
  rfl

theorem keysOf_dispatcher (state : PlanificadorState config) (fd : ℤ) :
    state.dispatcher.keysOf fd = keysOf state.gLockedKeys fd := by
  simp only [Dispatcher.keysOf, keysOf, PlanificadorState.dispatcher, List.filter_map, List.map_map]
  rfl

theorem determineIfKeyIsBlocked_iff (state : PlanificadorState config) (key : CString) :
    determineIfKeyIsBlocked key state.gLockedKeys = true ↔ key ∈ state.dispatcher.keys := by
  simp [keys_dispatcher, determineIfKeyIsBlocked]

theorem map_wait_eraseP (list : List EsiSexpectingKey) (fd : ℤ) :
    (listRemoveByCondition list fun sexpecting => sexpecting.esiFd = fd).map
        EsiSexpectingKey.wait =
      (list.map EsiSexpectingKey.wait).eraseP fun wait => wait.process = fd := by
  rw [List.eraseP_map]
  rfl

/-! ## Waking -/

/-- Waking an ESI, or freeing a key, is the operation of the dispatcher. -/
theorem dispatcher_updateBlockedEsiQueue {key : CString} {flag : UnblockFlag} {wasAStore : Bool}
    (hgenuine : state.dispatcher.Genuine (-1))
    (hupdate : updateBlockedEsiQueue state key flag wasAStore = some next) :
    next.dispatcher = state.dispatcher.wake key wasAStore ∧
      ∀ process ∈ state.dispatcher.firstWaiter key, process ∈ state.dispatcher.known := by
  have hclear : ∀ woken : PlanificadorState config,
      (woken.clear flag).dispatcher = woken.dispatcher := fun woken => by cases flag <;> rfl
  have hheld : ∀ list : List KeyBlocker,
      (listRemoveByCondition list fun blocker => blocker.key = key).map KeyBlocker.hold =
        (list.map KeyBlocker.hold).eraseP fun hold => hold.key = key := fun list => by
    rw [List.eraseP_map]
    rfl
  have hfirst := firstWaiter_dispatcher state key
  cases hfind : state.gEsisSexpectingKeys.find? fun sexpecting => sexpecting.key = key with
  | none =>
      rw [hfind] at hfirst
      have hunlock : unlockEsi state.gEsisSexpectingKeys key =
          (-1, state.gEsisSexpectingKeys) := by
        simp only [unlockEsi, hfind, Prod.mk.injEq, true_and]
        refine List.eraseP_of_forall_not fun sexpecting hmem heq => ?_
        exact hgenuine.waiting _ (List.mem_map_of_mem hmem) (of_decide_eq_true heq)
      obtain ⟨-, rfl⟩ | ⟨hne, -, -⟩ := of_updateBlockedEsiQueue hupdate
      · refine ⟨?_, by simp [hfirst]⟩
        rw [hclear, Dispatcher.wake_of_none _ hfirst]
        simp only [freedState, removeBlockedKeyFromList, hunlock, PlanificadorState.dispatcher,
          hheld]
        rfl
      · rw [hunlock] at hne
        exact absurd rfl hne
  | some sexpecting =>
      rw [hfind] at hfirst
      have hunlock : unlockEsi state.gEsisSexpectingKeys key = (sexpecting.esiFd,
          listRemoveByCondition state.gEsisSexpectingKeys fun other =>
            other.esiFd = sexpecting.esiFd) := by
        simp only [unlockEsi, hfind]
      have hne : sexpecting.esiFd ≠ -1 :=
        hgenuine.waiting _ (List.mem_map_of_mem (List.mem_of_find?_eq_some hfind))
      obtain ⟨heq, -⟩ | ⟨-, hmem, rfl⟩ := of_updateBlockedEsiQueue hupdate
      · rw [hunlock] at heq
        exact absurd heq hne
      · rw [hunlock] at hmem ⊢
        refine ⟨?_, fun process hprocess => ?_⟩
        · rw [hclear, Dispatcher.wake_of_some _ hfirst]
          simp only [wokenState, hunlock, PlanificadorState.dispatcher, map_wait_eraseP,
            coe_takeEsiAwayFromQueue, Dispatcher.coe_append_singleton, List.map_append]
          cases wasAStore
          · rfl
          · simp only [if_true, hheld, List.map_append]
            rfl
        · rw [hfirst] at hprocess
          obtain rfl := Option.mem_some_iff.mp hprocess
          exact Multiset.mem_coe.mpr hmem

theorem dispatcher_releaseKeys {keys : List CString} (hgenuine : state.dispatcher.Genuine (-1))
    (hkeys : releaseKeys state keys = some next) :
    next.dispatcher = state.dispatcher.releaseKeys keys := by
  induction keys generalizing state with
  | nil =>
      obtain rfl := Option.some.inj hkeys
      rfl
  | cons key keys ih =>
      obtain ⟨woken, hwake, hrest⟩ := Option.bind_eq_some_iff.mp hkeys
      obtain ⟨hwoken, -⟩ := dispatcher_updateBlockedEsiQueue hgenuine hwake
      rw [ih (hwoken ▸ hgenuine.wake key true) hrest, hwoken]
      rfl

theorem dispatcher_forgottenState (state : PlanificadorState config) (fd : ℤ) :
    (forgottenState state fd).dispatcher = state.dispatcher.leave fd := by
  have hheld : (listRemoveByCondition state.gLockedKeys fun blocker =>
      blocker.esiId = fd).map KeyBlocker.hold =
        (state.gLockedKeys.map KeyBlocker.hold).eraseP fun hold => hold.holder = fd := by
    rw [List.eraseP_map]
    rfl
  have hturns : (state.turns.filter fun turn => turn.esiFd ≠ fd).map EsiSexpectingKey.wait =
      (state.turns.map EsiSexpectingKey.wait).filter fun turn => turn.process ≠ fd := by
    rw [List.filter_map]
    rfl
  have hknown := Dispatcher.coe_map_eraseP EsiInformation.esiId state.gEsiBursts fd
  simp only [forgottenState, removeFd, endTurn, PlanificadorState.dispatcher,
    PlanificadorState.ids, map_wait_eraseP, hheld, hturns, hknown]
  rfl

/-- The release of all keys of an ESI, wherever it is executing. -/
theorem dispatcher_releaseResources (hgenuine : state.dispatcher.Genuine (-1))
    (hrelease : releaseResources state fd = some next) :
    next.dispatcher = state.dispatcher.release fd ∧ fd ∈ state.dispatcher.known := by
  obtain ⟨hmem, released, hkeys, rfl⟩ := of_releaseResources hrelease
  refine ⟨?_, Multiset.mem_coe.mpr hmem⟩
  rw [dispatcher_forgottenState, dispatcher_releaseKeys hgenuine hkeys, ← keysOf_dispatcher]
  rfl

theorem dispatcher_buriedState (state : PlanificadorState config) (fd : ℤ)
    (finished : List ℤ) :
    (buriedState state fd finished).dispatcher = state.dispatcher.bury fd := by
  simp only [buriedState, PlanificadorState.dispatcher, coe_takeEsiAwayFromQueue]
  rfl

/-- The death of an ESI is the death of a process. -/
theorem dispatcher_sockMyPort (hgenuine : state.dispatcher.Genuine (-1))
    (hsock : sockMyPort state fd = some next) :
    next.dispatcher = state.dispatcher.die fd ∧ fd ∈ state.dispatcher.known := by
  obtain ⟨hmem, released, hkeys, rfl⟩ := of_sockMyPort hsock
  refine ⟨?_, Multiset.mem_coe.mpr hmem⟩
  have hburied := dispatcher_buriedState state fd (state.gFinishedQueue ++ burials state fd)
  have hgone : (buriedState state fd
      (state.gFinishedQueue ++ burials state fd)).dispatcher.Genuine (-1) := by
    rw [hburied]
    exact hgenuine.shrink _ (Multiset.erase_subset _ _) (Multiset.erase_subset _ _)
      (Multiset.erase_subset _ _)
  rw [dispatcher_forgottenState, dispatcher_releaseKeys hgone hkeys, hburied,
    ← keysOf_dispatcher]
  rfl

/-! ## Performing operations -/

/-- A change of the scheduler performs operations of the dispatcher. -/
def Performs (state : PlanificadorState config) (operations : List KeyOperation)
    (next : PlanificadorState config) : Prop :=
  state.dispatcher.Genuine (-1) →
    performKey.execute state.dispatcher operations = some next.dispatcher

/-- Operations never bring the system in. -/
theorem genuine_of_execute {dispatcher after : Dispatcher CString ℤ}
    {operations : List KeyOperation} (hgenuine : dispatcher.Genuine (-1))
    (hexec : performKey.execute dispatcher operations = some after) : after.Genuine (-1) :=
  (PartialStep.runs_of_execute hexec).invariant _
    (fun hinv _ hstep => hinv.perform hstep) hgenuine

namespace Performs

theorem silent (hsame : next.dispatcher = state.dispatcher) : Performs state [] next :=
  fun _ => congrArg some hsame.symm

theorem single {operation : KeyOperation}
    (hperform : state.dispatcher.Genuine (-1) →
      performKey state.dispatcher operation = some next.dispatcher) :
    Performs state [operation] next := fun hgenuine => by
  simp only [PartialStep.execute, hperform hgenuine, Option.bind_some]

theorem append {middle : PlanificadorState config} {first second : List KeyOperation}
    (hfirst : Performs state first middle) (hsecond : Performs middle second next) :
    Performs state (first ++ second) next := fun hgenuine => by
  have hmiddle := hfirst hgenuine
  rw [PartialStep.execute_append second hmiddle]
  exact hsecond (genuine_of_execute hgenuine hmiddle)

theorem cons {middle : PlanificadorState config} {operation : KeyOperation}
    {operations : List KeyOperation}
    (hfirst : Performs state [operation] middle) (hsecond : Performs middle operations next) :
    Performs state (operation :: operations) next :=
  hfirst.append hsecond

/-- A change that the dispatcher does not see may follow. -/
theorem of_eq {middle : PlanificadorState config} {operations : List KeyOperation}
    (hfirst : Performs state operations middle) (hsame : next.dispatcher = middle.dispatcher) :
    Performs state operations next := fun hgenuine =>
  (hfirst hgenuine).trans (congrArg some hsame.symm)

/-- A change that the dispatcher does not see may come first. -/
theorem of_eq_left {middle : PlanificadorState config} {operations : List KeyOperation}
    (hsame : middle.dispatcher = state.dispatcher) (hsecond : Performs middle operations next) :
    Performs state operations next := fun hgenuine => by
  rw [← hsame]
  exact hsecond (hsame ▸ hgenuine)

/-- The dispatcher is genuine afterwards. -/
theorem genuine {operations : List KeyOperation} (hperforms : Performs state operations next)
    (hgenuine : state.dispatcher.Genuine (-1)) : next.dispatcher.Genuine (-1) :=
  genuine_of_execute hgenuine (hperforms hgenuine)

/-- A loop performs one operation in each turn. -/
theorem foldlM {β : Type} {turn : PlanificadorState config → β → Option (PlanificadorState config)}
    {operation : β → KeyOperation} {items : List β}
    (hloop : items.foldlM turn state = some next)
    (hturn : ∀ (state next : PlanificadorState config) (item : β),
      turn state item = some next → Performs state [operation item] next) :
    Performs state (items.map operation) next := by
  induction items generalizing state with
  | nil =>
      obtain rfl := Option.some.inj hloop
      exact .silent rfl
  | cons item items ih =>
      obtain ⟨middle, hfirst, hrest⟩ := Option.bind_eq_some_iff.mp hloop
      exact (hturn _ _ _ hfirst).cons (ih hrest)

end Performs

theorem performs_updateBlockedEsiQueue {key : CString} {flag : UnblockFlag} {wasAStore : Bool}
    (hupdate : updateBlockedEsiQueue state key flag wasAStore = some next) :
    Performs state [.wake key wasAStore] next := by
  refine .single fun hgenuine => ?_
  obtain ⟨heq, hknown⟩ := dispatcher_updateBlockedEsiQueue hgenuine hupdate
  exact Option.ite_some_none_eq_some.mpr ⟨hknown, heq.symm⟩

theorem performs_sockMyPort (hsock : sockMyPort state fd = some next) :
    Performs state [.die fd] next := by
  refine .single fun hgenuine => ?_
  obtain ⟨heq, hknown⟩ := dispatcher_sockMyPort hgenuine hsock
  exact Option.ite_some_none_eq_some.mpr ⟨hknown, heq.symm⟩

/-! ## The operations of an event -/

/-- The operations that follow a stage, when the program survives it. -/
def after {β : Type} (result : Option β) (operations : β → List KeyOperation) :
    List KeyOperation :=
  result.elim [] operations

/-- The operations of a failed `recv`. -/
def lossOperations (fd : ℤ) : Received → List KeyOperation
  | .code _ => []
  | .failure _ => [.die fd]

/-- The operations of the `switch` over the result. -/
def resultOperations (lastKeyInquired : Option CString) (fd : ℤ) (scriptEnd : Received) :
    ExecutionResult → List KeyOperation
  | .executionSuccess => lossOperations fd scriptEnd
  | .iAmBlocked => lastKeyInquired.toList.map (Operation.block fd)
  | .iBrokeTheLaw => [.die fd]
  | _ => []

/-- The operations of `receive_execution_result` and the `switch`. -/
def receiveOperations (state : PlanificadorState config) (result scriptEnd : Received) :
    List KeyOperation :=
  .act state.executingEsi :: (lossOperations state.executingEsi result ++
    resultOperations state.lastKeyInquired state.executingEsi scriptEnd result.result)

/-- The operations of the pending kills. -/
def killOperations (state : PlanificadorState config) : List KeyOperation :=
  if state.killedEsiFlag then (condemned state).map Operation.die else []

/-- The operations of the pending unlock of a STORE. -/
def storeOperations (state : PlanificadorState config) : List KeyOperation :=
  if state.updateBlockedEsiQueueFlag then
    state.keyToUnlock.toList.map fun key => .wake key true
  else []

/-- The operations of the pending unlocks of the console. -/
def consoleOperations (state : PlanificadorState config) : List KeyOperation :=
  if state.unlockEsiByConsoleFlag then
    state.gLastUnlockedByConsoleKeys.map fun key => .wake key false
  else []

/-- The operation of the request about the executing ESI. -/
def executingRequestOperations (state : PlanificadorState config) : List KeyOperation :=
  match state.gExecutionQueue with
  | executing :: _ =>
      (state.gNewBlockedByConsoleEsis.find? fun pending => pending.esiFd = executing).toList.map
        fun request => .claim .running request.esiFd request.key
  | [] => []

/-- The operations of the pending requests to block. -/
def requestOperations (state : PlanificadorState config) : List KeyOperation :=
  if state.blockEsiByConsoleFlag then
    executingRequestOperations state ++ after (blockExecuting state) fun first =>
      ((readyRequests first).map fun request => .claim .ready request.esiFd request.key) ++
        after (blockReady first (readyRequests first)) fun second =>
          second.gNewBlockedByConsoleEsis.map fun pending => .seize pending.esiFd pending.key
  else []

/-- The operations of the pending updates after the unlock of a STORE; `renews` says
when the new ESIs become ready. -/
def laterOperations (renews : PlanificadorState config → Bool)
    (stored : PlanificadorState config) : List KeyOperation :=
  consoleOperations stored ++ after (unlockByConsole stored) fun unlocked =>
    (if renews unlocked then [.enlist] else []) ++
      requestOperations (if renews unlocked then updateNewEsiQueue unlocked else unlocked)

/-- The operations of the pending updates. -/
def pendingOperations (renews : PlanificadorState config → Bool)
    (state : PlanificadorState config) : List KeyOperation :=
  storeOperations state ++ after (unlockStored state) (laterOperations renews)

/-- The operation of a preemption. -/
def preemptOperations (state : PlanificadorState config) : List KeyOperation :=
  if config.algorithmIsPreemptive && !state.finishedEsiFlag && state.rescheduleFlag then
    [.preempt state.executingEsi]
  else []

/-- The operations after a statement that was not the last one. -/
def updateOperations (state : PlanificadorState config) : List KeyOperation :=
  if state.updateBlockedEsiQueueFlag || state.newEsiFlag || state.unlockEsiByConsoleFlag then
    pendingOperations PlanificadorState.newEsiFlag state ++
      after (pendingUpdates PlanificadorState.newEsiFlag state) preemptOperations
  else []

/-- The operations of an authorisation, given those of another choice. -/
def authorizeOperations (again : PlanificadorState config → List KeyOperation)
    (unreachable : List ℤ) (state : PlanificadorState config) (fd : ℤ) : List KeyOperation :=
  if canReach unreachable state fd then []
  else .die fd :: after (sockMyPort state fd) fun dead => again { dead with executingEsi := -1 }

/-- The state in which the ESI selected is authorised. -/
def selectedState (state : PlanificadorState config) : Option (PlanificadorState config × ℤ) := do
  let (scheduled, fd) ← scheduleEsis state
  let waited ← setWaitingTimeToZero (moveEsiFromAndToQueue scheduled .ready .execution fd) fd
  some (waited, fd)

/-- The operations of `reschedule`. -/
def rescheduleOperations (unreachable : List ℤ) :
    ℕ → PlanificadorState config → List KeyOperation
  | 0, _ => []
  | fuel + 1, state =>
      after (selectedState state) fun selected =>
        .dispatch selected.2 ::
          authorizeOperations (rescheduleOperations unreachable fuel) unreachable selected.1
            selected.2

/-- The operations of the choice of the next ESI. -/
def chooseOperations (unreachable : List ℤ) (state : PlanificadorState config) :
    List KeyOperation :=
  if state.rescheduleFlag && !state.gReadyQueue.isEmpty then
    rescheduleOperations unreachable (state.gEsiBursts.length + 1) state
  else
    match state.gExecutionQueue with
    | executing :: _ =>
        authorizeOperations
          (fun dead => rescheduleOperations unreachable (dead.gEsiBursts.length + 1) dead)
          unreachable state executing
    | [] => []

/-- The operations of the branch of the executing ESI. -/
def executingEsiOperations (state : PlanificadorState config) (result scriptEnd : Received)
    (meanwhile : List Command) (unreachable : List ℤ) : List KeyOperation :=
  receiveOperations state result scriptEnd ++
    after (receiveResult state result scriptEnd) fun received =>
      killOperations received ++ after (burnIfKilled received) fun burnt =>
        (if burnt.finishedEsiFlag then [.finish burnt.executingEsi]
          else updateOperations burnt) ++
        after (choiceState state result scriptEnd meanwhile) (chooseOperations unreachable)

/-- The operations of the end of a turn. -/
def endOfTurnOperations (state : PlanificadorState config) (unreachable : List ℤ) :
    List KeyOperation :=
  if state.gExecutionQueue.isEmpty && !state.schedulerPausedFlag then
    killOperations state ++ after (burnIfKilled state) fun burnt =>
      pendingOperations renewsWhenIdle burnt ++
        after (pendingUpdates renewsWhenIdle burnt) fun blocked =>
          if blocked.gReadyQueue.isEmpty then []
          else rescheduleOperations unreachable (blocked.gEsiBursts.length + 1) blocked
  else []

/-- The operations of an event. -/
def operations (state : PlanificadorState config) : Event → List KeyOperation
  | .newClient newClientFd handshake => [.enter newClientFd handshake]
  | .coordinator .blockKey =>
      match state.lastKeyInquired, state.gExecutionQueue with
      | some key, executing :: _ => [.hold key executing]
      | _, _ => []
  | .coordinator _ => []
  | .executingEsi result scriptEnd meanwhile unreachable =>
      executingEsiOperations state result scriptEnd meanwhile unreachable
  | .endOfTurn unreachable => endOfTurnOperations state unreachable
  | .console _ => []

/-! ## The operations of a choice and of the updates before it -/

/-- An operation that comes neither from a client, nor from the coordinator, nor from
a result. -/
def settles : KeyOperation → Bool
  | .enter _ _ | .hold _ _ | .block _ _ => false
  | _ => true

theorem all_after {β : Type} {result : Option β} {operations : β → List KeyOperation}
    {test : KeyOperation → Bool} (hall : ∀ value, (operations value).all test = true) :
    (after result operations).all test = true := by
  cases result with
  | none => rfl
  | some value => exact hall value

theorem settles_killOperations (state : PlanificadorState config) :
    (killOperations state).all settles = true := by
  simp only [killOperations]
  split <;> simp [settles]

theorem settles_requestOperations (state : PlanificadorState config) :
    (requestOperations state).all settles = true := by
  have hexecuting : (executingRequestOperations state).all settles = true := by
    simp only [executingRequestOperations]
    split <;> simp [settles]
  simp only [requestOperations]
  split
  · rw [List.all_append, hexecuting, Bool.true_and]
    refine all_after fun first => ?_
    rw [List.all_append, Bool.and_eq_true]
    exact ⟨by simp [settles], all_after fun second => by simp [settles]⟩
  · rfl

theorem settles_pendingOperations (renews : PlanificadorState config → Bool)
    (state : PlanificadorState config) : (pendingOperations renews state).all settles = true := by
  have hstore : (storeOperations state).all settles = true := by
    simp only [storeOperations]
    split <;> simp [settles]
  rw [pendingOperations, List.all_append, hstore, Bool.true_and]
  refine all_after fun stored => ?_
  rw [laterOperations, List.all_append, Bool.and_eq_true]
  refine ⟨?_, all_after fun unlocked => ?_⟩
  · simp only [consoleOperations]
    split <;> simp [settles]
  · rw [List.all_append, settles_requestOperations, Bool.and_true]
    split <;> rfl

theorem settles_updateOperations (state : PlanificadorState config) :
    (updateOperations state).all settles = true := by
  simp only [updateOperations]
  split
  · rw [List.all_append, settles_pendingOperations, Bool.true_and]
    refine all_after fun updated => ?_
    simp only [preemptOperations]
    split <;> rfl
  · rfl

theorem settles_authorizeOperations {again : PlanificadorState config → List KeyOperation}
    (hagain : ∀ dead, (again dead).all settles = true) (unreachable : List ℤ)
    (state : PlanificadorState config) (fd : ℤ) :
    (authorizeOperations again unreachable state fd).all settles = true := by
  simp only [authorizeOperations]
  split
  · rfl
  · exact all_after fun dead => hagain _

theorem settles_rescheduleOperations (unreachable : List ℤ) (fuel : ℕ)
    (state : PlanificadorState config) :
    (rescheduleOperations unreachable fuel state).all settles = true := by
  induction fuel generalizing state with
  | zero => rfl
  | succ fuel ih => exact all_after fun selected => settles_authorizeOperations ih _ _ _

theorem settles_chooseOperations (unreachable : List ℤ) (state : PlanificadorState config) :
    (chooseOperations unreachable state).all settles = true := by
  simp only [chooseOperations]
  split
  · exact settles_rescheduleOperations _ _ _
  · split
    · exact settles_authorizeOperations (fun _ => settles_rescheduleOperations _ _ _) _ _ _
    · rfl

theorem settles_endOfTurnOperations (state : PlanificadorState config) (unreachable : List ℤ) :
    (endOfTurnOperations state unreachable).all settles = true := by
  simp only [endOfTurnOperations]
  split
  · rw [List.all_append, settles_killOperations, Bool.true_and]
    refine all_after fun burnt => ?_
    rw [List.all_append, settles_pendingOperations, Bool.true_and]
    refine all_after fun blocked => ?_
    split
    · rfl
    · exact settles_rescheduleOperations _ _ _
  · rfl

/-- After a result has been read, nobody is blocked because of it. -/
theorem exists_settles_executingEsiOperations (state : PlanificadorState config)
    (result scriptEnd : Received) (meanwhile : List Command) (unreachable : List ℤ) :
    ∃ rest, executingEsiOperations state result scriptEnd meanwhile unreachable =
      receiveOperations state result scriptEnd ++ rest ∧ rest.all settles = true := by
  refine ⟨_, rfl, all_after fun received => ?_⟩
  rw [List.all_append, settles_killOperations, Bool.true_and]
  refine all_after fun burnt => ?_
  rw [List.all_append, Bool.and_eq_true]
  refine ⟨?_, all_after fun choice => settles_chooseOperations _ _⟩
  split
  · rfl
  · exact settles_updateOperations _

/-! ## Every stage performs its operations -/

theorem after_some {β : Type} (value : β) (operations : β → List KeyOperation) :
    after (some value) operations = operations value := rfl

theorem performs_receiveExecutionResult {received : Received} {code : ExecutionResult}
    (hreceive : receiveExecutionResult state fd received = some (next, code)) :
    Performs state (lossOperations fd received) next := by
  obtain ⟨-, ⟨result, rfl, rfl⟩ | ⟨garbage, rfl, hsock⟩⟩ := of_receiveExecutionResult hreceive
  · exact .silent rfl
  · exact performs_sockMyPort hsock

/-- The dispatcher does not see estimations. -/
theorem dispatcher_of_bursts {bursts : List (EsiInformation config)}
    (hids : bursts.map EsiInformation.esiId = state.ids) :
    ({ state with gEsiBursts := bursts } : PlanificadorState config).dispatcher =
      state.dispatcher := by
  simp only [PlanificadorState.dispatcher, PlanificadorState.ids] at hids ⊢
  rw [hids]

theorem dispatcher_rescheduleIfReady (state : PlanificadorState config) :
    (rescheduleIfReady state).dispatcher = state.dispatcher := by
  simp only [rescheduleIfReady]
  split <;> rfl

theorem dispatcher_blocked (state : PlanificadorState config) (place : Place)
    (request : EsiSexpectingKey) :
    (moveEsiFromAndToQueue
      { state with gEsisSexpectingKeys := state.gEsisSexpectingKeys ++ [request] }
      (match place with | .ready => .ready | .running => .execution) .blocked
        request.esiFd).dispatcher =
      state.dispatcher.block place request.esiFd request.key := by
  cases place <;>
    simp [moveEsiFromAndToQueue, PlanificadorState.setQueue, PlanificadorState.queue,
      PlanificadorState.dispatcher, Dispatcher.block, PlanificadorState.ids,
      EsiSexpectingKey.wait]

theorem performs_handleResult {result : ExecutionResult} {scriptEnd : Received}
    (hreal : fd ≠ -1) (hhandle : handleResult state fd result scriptEnd = some next) :
    Performs state (resultOperations state.lastKeyInquired fd scriptEnd result) next := by
  cases result with
  | executionSuccess =>
      obtain ⟨logged, hlog, hrest⟩ := Option.bind_eq_some_iff.mp hhandle
      obtain ⟨rfl, -⟩ := of_logName hlog
      obtain ⟨⟨received, code⟩, hcode, hrest⟩ := Option.bind_eq_some_iff.mp hrest
      refine (performs_receiveExecutionResult hcode).of_eq ?_
      dsimp only at hrest
      split at hrest
      · rw [← Option.some.inj hrest]
        exact dispatcher_rescheduleIfReady _
      · rw [← Option.some.inj hrest]
  | iAmBlocked =>
      obtain ⟨key, hkey, hrest⟩ := Option.bind_eq_some_iff.mp hhandle
      obtain ⟨estimated, hestimated, hrest⟩ := Option.bind_eq_some_iff.mp hrest
      obtain ⟨hknown, bursts, rfl, hids⟩ := of_modifyInformation hestimated fun _ => rfl
      simp only [resultOperations, hkey]
      refine .single fun _ => Option.ite_some_none_eq_some.mpr
        ⟨⟨hreal, Multiset.mem_coe.mpr hknown⟩, ?_⟩
      rw [← Option.some.inj hrest]
      exact ((dispatcher_rescheduleIfReady _).trans ((dispatcher_of_bursts hids).trans
        (dispatcher_blocked state .running ⟨fd, key⟩))).symm
  | iBrokeTheLaw =>
      obtain ⟨logged, hlog, hrest⟩ := Option.bind_eq_some_iff.mp hhandle
      obtain ⟨rfl, -⟩ := of_logName hlog
      obtain ⟨dead, hdead, hrest⟩ := Option.bind_eq_some_iff.mp hrest
      rw [← Option.some.inj hrest]
      exact (performs_sockMyPort hdead).of_eq (dispatcher_rescheduleIfReady dead)
  | finishedScript | didntFinishScript | other =>
      obtain rfl := Option.some.inj hhandle
      exact .silent rfl

theorem lastKeyInquired_of_receive {received : Received} {code : ExecutionResult}
    (hreceive : receiveExecutionResult (answeredState state) fd received = some (next, code)) :
    next.lastKeyInquired = state.lastKeyInquired :=
  (background_receiveExecutionResult hreceive).lastKeyInquired

theorem dispatcher_endTurn (state : PlanificadorState config) (fd : ℤ) :
    (endTurn state fd).dispatcher = state.dispatcher.endTurns fd := by
  simp only [endTurn, PlanificadorState.dispatcher, Dispatcher.endTurns, List.filter_map]
  rfl

theorem performs_receiveResult {result scriptEnd : Received} (hreal : state.executingEsi ≠ -1)
    (hreceive : receiveResult state result scriptEnd = some next) :
    Performs state (receiveOperations state result scriptEnd) next := by
  obtain ⟨received, hcode, hhandle⟩ := of_receiveResult hreceive
  have hact : Performs state [.act state.executingEsi] (answeredState state) :=
    .single fun _ => congrArg some (dispatcher_endTurn _ _).symm
  refine hact.cons ((performs_receiveExecutionResult hcode).append ?_)
  have hresult := performs_handleResult hreal hhandle
  rwa [lastKeyInquired_of_receive hcode] at hresult

theorem performs_burnIfKilled (hburn : burnIfKilled state = some next) :
    Performs state (killOperations state) next := by
  simp only [burnIfKilled] at hburn
  simp only [killOperations]
  split at hburn
  · rename_i hkilled
    obtain ⟨burnt, hburnt, rfl⟩ := of_burnEsiCorpses hburn
    rw [if_pos hkilled]
    exact Performs.of_eq_left rfl
      ((Performs.foldlM hburnt fun _ _ _ => performs_sockMyPort).of_eq rfl)
  · rename_i hkilled
    obtain rfl := Option.some.inj hburn
    rw [if_neg hkilled]
    exact .silent rfl

theorem performs_unlockStored (hunlock : unlockStored state = some next) :
    Performs state (storeOperations state) next := by
  obtain ⟨hflag, rfl⟩ | ⟨hflag, key, unlocked, hkey, hupdate, rfl⟩ := of_unlockStored hunlock
  · simp only [storeOperations, hflag]
    exact .silent rfl
  · simp only [storeOperations, hflag, hkey]
    exact (performs_updateBlockedEsiQueue hupdate).of_eq rfl

theorem performs_unlockByConsole (hunlock : unlockByConsole state = some next) :
    Performs state (consoleOperations state) next := by
  obtain ⟨hflag, rfl⟩ | ⟨hflag, unlocked, hloop, rfl⟩ := of_unlockByConsole hunlock
  · simp only [consoleOperations, hflag]
    exact .silent rfl
  · simp only [consoleOperations, hflag]
    exact (Performs.foldlM hloop fun _ _ _ => performs_updateBlockedEsiQueue).of_eq rfl

theorem performs_updateNewEsiQueue (state : PlanificadorState config) :
    Performs state [.enlist] (updateNewEsiQueue state) :=
  .single fun _ => rfl

/-- The queue behind a place. -/
def queueOf : Place → Queue
  | .ready => .ready
  | .running => .execution

theorem performs_blockByConsole (place : Place) {request : EsiSexpectingKey}
    (hreal : request.esiFd ≠ -1)
    (hblock : blockByConsole state (queueOf place) request = some next) :
    Performs state [.claim place request.esiFd request.key] next := by
  obtain ⟨applied, rfl, hknown, happlied⟩ := of_blockByConsole hblock
  suffices hperforms : Performs state [.claim place request.esiFd request.key] applied from
    hperforms.of_eq rfl
  refine .single fun _ => ?_
  obtain ⟨hlocked, rfl⟩ | ⟨hfree, rfl⟩ := happlied
  · refine Option.ite_some_none_eq_some.mpr ⟨⟨hreal, ?_⟩, ?_⟩
    · exact Multiset.mem_coe.mpr (by cases place <;> exact hknown)
    · have hkey := (determineIfKeyIsBlocked_iff state request.key).mp hlocked
      rw [Dispatcher.claim, if_pos hkey, blockedState, dispatcher_endTurn]
      exact congrArg (Dispatcher.endTurns · request.esiFd)
        (dispatcher_blocked state place request).symm
  · refine Option.ite_some_none_eq_some.mpr ⟨⟨hreal, Multiset.mem_coe.mpr hknown⟩, ?_⟩
    have hkey : request.key ∉ state.dispatcher.keys := fun hmem => by
      rw [(determineIfKeyIsBlocked_iff state request.key).mpr hmem] at hfree
      cases hfree
    rw [Dispatcher.claim, if_neg hkey]
    simp only [takenState, PlanificadorState.dispatcher, List.map_append]
    rfl

theorem performs_blockExecuting (hblock : blockExecuting state = some next) :
    Performs state (executingRequestOperations state) next := by
  intro hgenuine
  cases hexec : state.gExecutionQueue with
  | nil =>
      simp only [blockExecuting, hexec] at hblock
      obtain rfl := Option.some.inj hblock
      simp only [executingRequestOperations, hexec]
      exact Performs.silent rfl hgenuine
  | cons executing rest =>
      cases hfind : state.gNewBlockedByConsoleEsis.find? fun pending =>
          pending.esiFd = executing with
      | none =>
          simp only [blockExecuting, hexec, hfind] at hblock
          obtain rfl := Option.some.inj hblock
          simp only [executingRequestOperations, hexec, hfind]
          exact Performs.silent rfl hgenuine
      | some request =>
          simp only [blockExecuting, hexec, hfind] at hblock
          have hfd : request.esiFd = executing := by simpa using List.find?_some hfind
          have hreal : request.esiFd ≠ -1 := fun heq => hgenuine.queues (by
            refine Multiset.mem_add.mpr (.inr (Multiset.mem_coe.mpr ?_))
            rw [hexec, ← heq, hfd]
            exact List.mem_cons_self)
          simp only [executingRequestOperations, hexec, hfind]
          exact performs_blockByConsole .running hreal hblock hgenuine

theorem performs_blockReady {requests : List EsiSexpectingKey}
    (hreal : ∀ request ∈ requests, request.esiFd ≠ -1)
    (hblock : blockReady state requests = some next) :
    Performs state (requests.map fun request => .claim .ready request.esiFd request.key) next := by
  induction requests generalizing state with
  | nil =>
      obtain rfl := Option.some.inj hblock
      exact .silent rfl
  | cons request requests ih =>
      obtain ⟨middle, hfirst, hrest⟩ := Option.bind_eq_some_iff.mp hblock
      have hhead : Performs state [.claim .ready request.esiFd request.key] middle :=
        performs_blockByConsole .ready (hreal request List.mem_cons_self) hfirst
      exact hhead.cons (ih (fun other hmem => hreal other (List.mem_cons_of_mem _ hmem)) hrest)

theorem performs_showEsiThatWasntBlocked (state : PlanificadorState config)
    (pending : EsiSexpectingKey) :
    Performs state [.seize pending.esiFd pending.key]
      (showEsiThatWasntBlocked state pending) := by
  refine .single fun _ => congrArg some ?_
  have hknown : pending.esiFd ∈ state.dispatcher.known ↔
      (obtainEsiInformationById state.gEsiBursts pending.esiFd).isSome = true :=
    Multiset.mem_coe.trans (isSome_obtainEsiInformationById _ _).symm
  have hkey := determineIfKeyIsBlocked_iff state pending.key
  simp only [Dispatcher.seize, showEsiThatWasntBlocked]
  cases hfind : obtainEsiInformationById state.gEsiBursts pending.esiFd with
  | some information =>
      rw [if_pos (.inl (hknown.mpr (by rw [hfind]; rfl)))]
  | none =>
      have hunknown : pending.esiFd ∉ state.dispatcher.known := fun hmem => by
        have hsome := hknown.mp hmem
        rw [hfind] at hsome
        cases hsome
      cases hlocked : determineIfKeyIsBlocked pending.key state.gLockedKeys with
      | true =>
          rw [if_pos (.inr (hkey.mp hlocked))]
          rfl
      | false =>
          have hfree : pending.key ∉ state.dispatcher.keys := fun hmem => by
            rw [hkey.mpr hmem] at hlocked
            cases hlocked
          rw [if_neg (not_or.mpr ⟨hunknown, hfree⟩)]
          simp [PlanificadorState.dispatcher, PlanificadorState.ids, KeyBlocker.hold]

theorem performs_foldl_showEsiThatWasntBlocked (state : PlanificadorState config)
    (requests : List EsiSexpectingKey) :
    Performs state (requests.map fun pending => .seize pending.esiFd pending.key)
      (requests.foldl showEsiThatWasntBlocked state) := by
  induction requests generalizing state with
  | nil => exact .silent rfl
  | cons request requests ih =>
      exact (performs_showEsiThatWasntBlocked state request).cons (ih _)

theorem performs_blockIfRequested (hblock : blockIfRequested state = some next) :
    Performs state (requestOperations state) next := by
  intro hgenuine
  simp only [blockIfRequested] at hblock
  simp only [requestOperations]
  split at hblock
  · rename_i hflag
    obtain ⟨first, second, hfirst, hsecond, rfl⟩ := of_blockByConsoleProcedure hblock
    rw [if_pos hflag, hfirst, after_some, hsecond, after_some]
    have hexecuting := performs_blockExecuting hfirst
    have hreal : ∀ request ∈ readyRequests first, request.esiFd ≠ -1 := by
      intro request hmem heq
      have hready : request.esiFd ∈ first.gReadyQueue := by
        simpa using (List.mem_filter.mp hmem).2
      refine (hexecuting.genuine hgenuine).queues ?_
      simpa [heq ▸ Multiset.mem_coe.mpr hready] using Or.inl (Or.inr (heq ▸ hready))
    refine (hexecuting.append ((performs_blockReady hreal hsecond).append ?_)) hgenuine
    exact (performs_foldl_showEsiThatWasntBlocked second _).of_eq rfl
  · rename_i hflag
    obtain rfl := Option.some.inj hblock
    rw [if_neg hflag]
    exact Performs.silent rfl hgenuine

theorem performs_laterUpdates {renews : PlanificadorState config → Bool}
    {unlocked : PlanificadorState config} (hunlocked : unlockByConsole state = some unlocked)
    (hblocked : blockIfRequested
      (if renews unlocked then updateNewEsiQueue unlocked else unlocked) = some next) :
    Performs state (laterOperations renews state) next := by
  simp only [laterOperations, hunlocked, after_some]
  refine (performs_unlockByConsole hunlocked).append ?_
  cases hrenews : renews unlocked with
  | true =>
      rw [hrenews] at hblocked
      exact (performs_updateNewEsiQueue unlocked).append (performs_blockIfRequested hblocked)
  | false =>
      rw [hrenews] at hblocked
      exact (Performs.silent rfl).append (performs_blockIfRequested hblocked)

theorem performs_pendingUpdates {renews : PlanificadorState config → Bool}
    (hupdates : pendingUpdates renews state = some next) :
    Performs state (pendingOperations renews state) next := by
  obtain ⟨stored, unlocked, hstored, hunlocked, hblocked⟩ := of_pendingUpdates hupdates
  simp only [pendingOperations, hstored, after_some]
  exact (performs_unlockStored hstored).append (performs_laterUpdates hunlocked hblocked)

theorem performs_preempt (hreal : state.executingEsi ≠ -1) :
    Performs state (preemptOperations state) (preempt state) := by
  simp only [preempt, preemptOperations]
  split
  · refine .single fun _ => Option.ite_some_none_eq_some.mpr ⟨hreal, ?_⟩
    simp only [moveEsiFromAndToQueue, PlanificadorState.setQueue, PlanificadorState.queue,
      PlanificadorState.dispatcher, Dispatcher.preempt, coe_takeEsiAwayFromQueue,
      Dispatcher.coe_append_singleton]
    rfl
  · exact .silent rfl

theorem performs_updateQueues (hreal : state.executingEsi ≠ -1)
    (hupdate : updateQueues state = some next) :
    Performs state (updateOperations state) next := by
  simp only [updateOperations]
  obtain ⟨hquiet, rfl⟩ | ⟨hdue, updated, hupdates, rfl⟩ := of_updateQueues hupdate
  · rw [updatesDue] at hquiet
    rw [hquiet]
    exact .silent rfl
  · rw [updatesDue] at hdue
    rw [if_pos hdue, hupdates, after_some]
    refine (performs_pendingUpdates hupdates).append (performs_preempt ?_)
    rwa [(background_pendingUpdates hupdates).executingEsi]

/-- The end of a script. Only the execution queue is looked at after the keys are
released. -/
theorem performs_finishScript (hfinish : finishScript state = some next) :
    Performs state [.finish state.executingEsi] next := by
  refine .single fun hgenuine => ?_
  obtain ⟨released, key, hrelease, rfl⟩ := of_finishScript hfinish
  obtain ⟨hdispatcher, hknown⟩ := dispatcher_releaseResources hgenuine hrelease
  refine Option.ite_some_none_eq_some.mpr ⟨hknown, ?_⟩
  have hrunning : (released.gExecutionQueue : Multiset ℤ) = state.dispatcher.running := by
    obtain ⟨-, freed, hkeys, rfl⟩ := of_releaseResources hrelease
    exact congrArg _ (waking_releaseKeys hkeys).gExecutionQueue
  calc state.dispatcher.finish state.executingEsi
      = { state.dispatcher.release state.executingEsi with
          running := state.dispatcher.running.erase state.executingEsi } :=
        congrArg (Dispatcher.leave · state.executingEsi)
          (Dispatcher.releaseKeys_running state.dispatcher _ _)
    _ = { released.dispatcher with
          running := (released.gExecutionQueue : Multiset ℤ).erase state.executingEsi } := by
        rw [hdispatcher, hrunning]
    _ = _ := by
        simp [moveEsiFromAndToQueue, PlanificadorState.setQueue, PlanificadorState.queue,
          PlanificadorState.dispatcher, PlanificadorState.ids]

/-! ## Choosing performs its operations -/

theorem of_selectedState (hselected : selectedState state = some (next, fd)) :
    Performs state [.dispatch fd] next := by
  obtain ⟨⟨scheduled, esiFd⟩, hschedule, hrest⟩ := Option.bind_eq_some_iff.mp hselected
  obtain ⟨waited, hwaited, hrest⟩ := Option.bind_eq_some_iff.mp hrest
  obtain ⟨rfl, rfl⟩ := Prod.mk.inj (Option.some.inj hrest)
  obtain ⟨ready, hperm, hmem, hknown, rfl⟩ := perm_of_scheduleEsis hschedule
  obtain ⟨-, bursts, rfl, hids⟩ := of_modifyInformation hwaited fun _ => rfl
  have hready : (ready : Multiset ℤ) = (state.gReadyQueue : Multiset ℤ) :=
    Multiset.coe_eq_coe.mpr hperm
  refine .single fun _ => Option.ite_some_none_eq_some.mpr
    ⟨⟨?_, Multiset.mem_coe.mpr hknown⟩, ?_⟩
  · exact Multiset.mem_coe.mpr (hperm.mem_iff.mp hmem)
  · refine Eq.trans ?_ (dispatcher_of_bursts hids).symm
    simp only [moveEsiFromAndToQueue, PlanificadorState.setQueue, PlanificadorState.queue,
      PlanificadorState.dispatcher, Dispatcher.dispatch, coe_takeEsiAwayFromQueue,
      Dispatcher.coe_append_singleton, hready]
    rfl

theorem performs_authorizeWith {unreachable : List ℤ}
    {again : PlanificadorState config → Option (PlanificadorState config)}
    {againOperations : PlanificadorState config → List KeyOperation}
    (hauthorize : authorizeWith again unreachable state fd = some next)
    (hagain : ∀ dead, again dead = some next → Performs dead (againOperations dead) next) :
    Performs state (authorizeOperations againOperations unreachable state fd) next := by
  simp only [authorizeWith] at hauthorize
  simp only [authorizeOperations]
  split at hauthorize
  · rename_i hreach
    rw [if_pos hreach]
    obtain ⟨-, bursts, rfl, hids⟩ := of_modifyInformation hauthorize fun _ => rfl
    exact .silent (dispatcher_of_bursts hids)
  · rename_i hreach
    rw [if_neg hreach]
    obtain ⟨dead, hdead, hrest⟩ := Option.bind_eq_some_iff.mp hauthorize
    rw [hdead, after_some]
    exact (performs_sockMyPort hdead).cons (Performs.of_eq_left rfl (hagain _ hrest))

theorem performs_rescheduleWithin {unreachable : List ℤ} {fuel : ℕ}
    (hchoose : rescheduleWithin unreachable fuel state = some next) :
    Performs state (rescheduleOperations unreachable fuel state) next := by
  induction fuel generalizing state next with
  | zero => cases hchoose
  | succ fuel ih =>
      obtain ⟨⟨scheduled, fd⟩, hschedule, hrest⟩ := Option.bind_eq_some_iff.mp hchoose
      obtain ⟨waited, hwaited, hrest⟩ := Option.bind_eq_some_iff.mp hrest
      obtain ⟨authorized, hauthorize, hrest⟩ := Option.bind_eq_some_iff.mp hrest
      have hselected : selectedState state = some (waited, fd) := by
        simp only [selectedState, hschedule, hwaited, Option.bind_eq_bind, Option.bind_some]
      have hoperations := performs_authorizeWith hauthorize fun dead hdead => ih hdead
      rw [rescheduleOperations, hselected, after_some, ← Option.some.inj hrest]
      exact (of_selectedState hselected).cons (hoperations.of_eq rfl)

theorem performs_chooseNext {unreachable : List ℤ}
    (hchoose : chooseNext state unreachable = some next) :
    Performs state (chooseOperations unreachable state) next := by
  simp only [chooseNext] at hchoose
  simp only [chooseOperations]
  split at hchoose
  · rename_i hready
    rw [if_pos hready]
    exact performs_rescheduleWithin hchoose
  · rename_i hready
    rw [if_neg hready]
    cases hexec : state.gExecutionQueue with
    | nil =>
        simp only [hexec] at hchoose
        obtain rfl := Option.some.inj hchoose
        exact .silent rfl
    | cons executing rest =>
        simp only [hexec] at hchoose
        exact performs_authorizeWith hchoose fun dead hdead => performs_rescheduleWithin hdead

theorem dispatcher_executeCommand (state : PlanificadorState config) (command : Command) :
    (executeCommand state command).dispatcher = state.dispatcher := by
  obtain ⟨_, _, _, _, _, _, _, heq⟩ := executeCommand_eq state command
  rw [heq]
  rfl

theorem dispatcher_foldl_executeCommand (state : PlanificadorState config)
    (commands : List Command) :
    (commands.foldl executeCommand state).dispatcher = state.dispatcher := by
  induction commands generalizing state with
  | nil => rfl
  | cons command commands ih => exact (ih _).trans (dispatcher_executeCommand state command)

theorem dispatcher_waitWhilePaused {meanwhile : List Command}
    (hwait : waitWhilePaused state meanwhile = some next) :
    next.dispatcher = state.dispatcher := by
  obtain ⟨commands, rfl⟩ := of_waitWhilePaused hwait
  exact dispatcher_foldl_executeCommand state commands

theorem dispatcher_updateWaitingTimeOfReadyEsis (state : PlanificadorState config) :
    (updateWaitingTimeOfReadyEsis state).dispatcher = state.dispatcher := by
  refine dispatcher_of_bursts ?_
  rw [PlanificadorState.ids, List.map_map]
  refine List.map_congr_left fun information _ => ?_
  simp only [Function.comp_apply]
  split <;> rfl

/-! ## Every event performs its operations -/

/-- A client that is registered is fresh and known. -/
theorem dispatcher_registered (state : PlanificadorState config) (newClientFd : ℤ)
    (information : EsiInformation config) (hid : information.esiId = newClientFd) :
    ({ state with
      gNewQueue := state.gNewQueue ++ [newClientFd]
      gEsiBursts := state.gEsiBursts ++ [information] } : PlanificadorState config).dispatcher =
      { state.dispatcher with
        fresh := newClientFd ::ₘ state.dispatcher.fresh
        known := newClientFd ::ₘ state.dispatcher.known } := by
  simp only [PlanificadorState.dispatcher, PlanificadorState.ids, List.map_append,
    List.map_cons, List.map_nil, hid, Dispatcher.coe_append_singleton]

theorem dispatcher_connected (state : PlanificadorState config) (newClientFd : ℤ) :
    ({ state with
      connectedFds := state.connectedFds ++ [newClientFd] } : PlanificadorState config).dispatcher =
      { state.dispatcher with connected := newClientFd ::ₘ state.dispatcher.connected } := by
  simp only [PlanificadorState.dispatcher, Dispatcher.coe_append_singleton]
  rfl

theorem dispatcher_removeFd (state : PlanificadorState config) (fd : ℤ) :
    (removeFd state fd).dispatcher =
      ({ state.dispatcher with
        connected := state.dispatcher.connected.filter fun other => other ≠ fd }).endTurns fd := by
  rw [removeFd, dispatcher_endTurn]
  rfl

theorem performs_newClient {newClientFd : ℤ} {handshake : Bool}
    (hclient : newClient state newClientFd handshake = some next) :
    Performs state [.enter newClientFd handshake] next := by
  simp only [newClient] at hclient
  split at hclient
  · cases hclient
  · rename_i hfree
    simp only [Bool.or_eq_true, List.contains_eq_mem, decide_eq_true_eq, not_or, not_lt] at hfree
    refine .single fun _ => Option.ite_some_none_eq_some.mpr ⟨⟨?_, ?_⟩, ?_⟩
    · omega
    · exact fun hmem => hfree.1 (Multiset.mem_coe.mp hmem)
    · rw [← Option.some.inj hclient]
      cases handshake with
      | true =>
          refine Eq.trans ?_ (dispatcher_registered
            { state with connectedFds := state.connectedFds ++ [newClientFd] } newClientFd
            (createEsiInformation config newClientFd state.esiNumericArrivalOrder) rfl).symm
          rw [dispatcher_connected]
          rfl
      | false =>
          refine Eq.trans ?_ (dispatcher_registered
            (removeFd { state with connectedFds := state.connectedFds ++ [newClientFd] }
              newClientFd) newClientFd
            (createEsiInformation config newClientFd state.esiNumericArrivalOrder) rfl).symm
          rw [dispatcher_removeFd, dispatcher_connected]
          rfl

/-- A message of the coordinator adds a key when it says that it is to be blocked. -/
theorem performs_coordinatorBranch {message : CoordinatorMessage}
    {answer : Option CoordinatorAnswer}
    (hbranch : coordinatorBranch state message = some (next, answer)) :
    Performs state (operations state (.coordinator message)) next := by
  cases message with
  | isThisKeyBlocked key =>
      obtain ⟨entered, hwait, hrest⟩ := Option.bind_eq_some_iff.mp hbranch
      obtain ⟨count, rfl⟩ := of_semWait hwait
      dsimp only at hrest
      split at hrest
      · obtain ⟨rfl, -⟩ := Prod.mk.inj (Option.some.inj hrest)
        exact .silent rfl
      · obtain ⟨rfl, -⟩ := Prod.mk.inj (Option.some.inj hrest)
        exact .silent rfl
  | isKeyBlockedByExecutingEsi =>
      obtain ⟨key, -, hrest⟩ := Option.bind_eq_some_iff.mp hbranch
      obtain ⟨response, -, hrest⟩ := Option.bind_eq_some_iff.mp hrest
      split at hrest
      · obtain ⟨rfl, -⟩ := Prod.mk.inj (Option.some.inj hrest)
        exact .silent rfl
      · obtain ⟨rfl, -⟩ := Prod.mk.inj (Option.some.inj hrest)
        exact .silent rfl
  | blockKey =>
      obtain ⟨entered, hwait, hrest⟩ := Option.bind_eq_some_iff.mp hbranch
      obtain ⟨count, rfl⟩ := of_semWait hwait
      obtain ⟨key, hkey, hrest⟩ := Option.bind_eq_some_iff.mp hrest
      obtain ⟨blocked, hadd, hrest⟩ := Option.bind_eq_some_iff.mp hrest
      obtain ⟨rfl, -⟩ := Prod.mk.inj (Option.some.inj hrest)
      simp only [addNewKeyBlocker] at hadd
      split at hadd
      · rename_i executing rest hexec
        rw [← Option.some.inj hadd]
        have hhold : operations state (.coordinator .blockKey) = [.hold key executing] := by
          simp only [operations, show state.lastKeyInquired = some key from hkey,
            show state.gExecutionQueue = executing :: rest from hexec]
        rw [hhold]
        refine .single fun _ => congrArg some ?_
        simp only [semPost, PlanificadorState.dispatcher, List.map_append]
        rfl
      · cases hadd
  | unlockKey key =>
      obtain ⟨entered, hwait, hrest⟩ := Option.bind_eq_some_iff.mp hbranch
      obtain ⟨count, rfl⟩ := of_semWait hwait
      obtain ⟨rfl, -⟩ := Prod.mk.inj (Option.some.inj hrest)
      exact .silent rfl
  | keyStatus =>
      obtain ⟨entered, hwait, hrest⟩ := Option.bind_eq_some_iff.mp hbranch
      obtain ⟨count, rfl⟩ := of_semWait hwait
      obtain ⟨rfl, -⟩ := Prod.mk.inj (Option.some.inj hrest)
      exact .silent rfl

theorem performs_executingEsiBranch {result scriptEnd : Received} {meanwhile : List Command}
    {unreachable : List ℤ}
    (hbranch : executingEsiBranch state result scriptEnd meanwhile unreachable = some next) :
    Performs state (executingEsiOperations state result scriptEnd meanwhile unreachable) next := by
  intro hgenuine
  obtain ⟨hconnected, choice, hchoice, hchoose⟩ := of_executingEsiBranch hbranch
  obtain ⟨settled, resumed, hsettle, hresumed, rfl⟩ := of_choiceState hchoice
  obtain ⟨received, burnt, hreceive, hburn, hend⟩ := of_settleResult hsettle
  have hreal : state.executingEsi ≠ -1 := fun heq =>
    hgenuine.connected (heq ▸ Multiset.mem_coe.mpr hconnected)
  have hexecuting : burnt.executingEsi = state.executingEsi := by
    rw [(background_burnIfKilled hburn).executingEsi, (control_of_receiveResult hreceive).1]
  rw [executingEsiOperations, hreceive, after_some, hburn, after_some, hchoice, after_some]
  have hsettled : Performs burnt (if burnt.finishedEsiFlag then [.finish burnt.executingEsi]
      else updateOperations burnt) settled := by
    obtain ⟨hfinished, hfinish⟩ | ⟨hfinished, hupdate⟩ := hend
    · rw [if_pos hfinished]
      exact performs_finishScript hfinish
    · rw [if_neg (by simp [hfinished])]
      exact performs_updateQueues (hexecuting ▸ hreal) hupdate
  have hlast : (updateWaitingTimeOfReadyEsis resumed).dispatcher = settled.dispatcher :=
    (dispatcher_updateWaitingTimeOfReadyEsis resumed).trans (dispatcher_waitWhilePaused hresumed :)
  exact ((performs_receiveResult hreal hreceive).append ((performs_burnIfKilled hburn).append
    ((hsettled.of_eq hlast).append (performs_chooseNext hchoose)))) hgenuine

theorem performs_endOfTurn {unreachable : List ℤ}
    (hturn : endOfTurn state unreachable = some next) :
    Performs state (endOfTurnOperations state unreachable) next := by
  simp only [endOfTurnOperations]
  obtain ⟨hbusy, rfl⟩ | ⟨hquiet, idle, hidle, hend⟩ := of_endOfTurn hturn
  · rw [if_neg (by simp [hbusy])]
    exact .silent rfl
  · obtain ⟨burnt, hburn, hupdates⟩ := Option.bind_eq_some_iff.mp hidle
    rw [if_pos hquiet, hburn, after_some, hupdates, after_some]
    refine (performs_burnIfKilled hburn).append ((performs_pendingUpdates hupdates).append ?_)
    obtain ⟨hempty, rfl⟩ | ⟨hready, hchoose⟩ := hend
    · rw [if_pos hempty]
      exact .silent rfl
    · rw [if_neg (by simp [hready])]
      exact performs_rescheduleWithin hchoose

/-- **The main loop performs operations of the dispatcher.** -/
theorem performs_mainStep {event : Event} (hstep : mainStep config state event = some next) :
    Performs state (operations state event) next := by
  cases event with
  | newClient newClientFd handshake => exact performs_newClient hstep
  | coordinator message =>
      obtain ⟨⟨next, answer⟩, hbranch, rfl⟩ := Option.map_eq_some_iff.mp hstep
      exact performs_coordinatorBranch hbranch
  | executingEsi result scriptEnd meanwhile unreachable =>
      exact performs_executingEsiBranch hstep
  | endOfTurn unreachable => exact performs_endOfTurn hstep
  | console command =>
      obtain rfl := Option.some.inj hstep
      exact .silent (dispatcher_executeCommand state command)

/-- No ESI ever has the socket `-1`. -/
theorem genuine_init (config : Config) :
    (PlanificadorState.init config).dispatcher.Genuine (-1) :=
  ⟨by simp [PlanificadorState.init, PlanificadorState.dispatcher],
    by simp [PlanificadorState.init, PlanificadorState.dispatcher],
    by simp [PlanificadorState.init, PlanificadorState.dispatcher]⟩

theorem genuine_of_runs {ok : PlanificadorState config → Event → Prop}
    {start finish : PlanificadorState config} {events : List Event}
    (hrun : (mainStep config).Runs ok start events finish)
    (hgenuine : start.dispatcher.Genuine (-1)) : finish.dispatcher.Genuine (-1) :=
  hrun.invariant _ (fun hinv _ hstep => genuine_of_execute hinv (performs_mainStep hstep hinv))
    hgenuine

end SockMyPort.Planificador
