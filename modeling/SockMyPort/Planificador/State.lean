/-
# The state of the scheduler

The global variables of `planificador.c`, the two local pointers of its main
loop, and what the loop can be told: connections, messages of the coordinator,
results of the executing ESI and console commands. Queues hold socket numbers,
as in the program, and a socket number can be used again once it is closed. The
last four fields record what was sent and logged; no function reads them.

Estimations are floating point numbers. Few results depend on which ESI is chosen
among the ready ones, so that the arithmetic is a parameter.
-/

import SockMyPort.Commons.Strings
import SockMyPort.Commons.Collections

namespace SockMyPort.Planificador

open SockMyPort.Commons

/-! ## Configuration -/

/-- `t_scheduling_algorithm`. -/
inductive SchedulingAlgorithm
  | fifo
  | sjfcd
  | sjfsd
  | hrrn
  deriving DecidableEq, Repr

/-- The operations of `float` that the scheduler uses. -/
structure FloatArithmetic where
  Float : Type
  ofInt : ℤ → Float
  add : Float → Float → Float
  sub : Float → Float → Float
  mul : Float → Float → Float
  div : Float → Float → Float
  le : Float → Float → Bool
  eq : Float → Float → Bool

/-- `t_planificador_config`, without the addresses, with the library's sort. -/
structure Config where
  arithmetic : FloatArithmetic
  schedulingAlgorithm : SchedulingAlgorithm
  alpha : arithmetic.Float
  initialEstimation : arithmetic.Float
  blockedKeys : List CString
  sort : ListSort

/-- `algorithm_is_preemptive`: the algorithm of number one. -/
def Config.algorithmIsPreemptive (config : Config) : Bool :=
  config.schedulingAlgorithm = .sjfcd

/-! ## Data -/

/-- `key_blocker`: a locked key and the socket of its owner, or `-1`. -/
structure KeyBlocker where
  key : CString
  esiId : ℤ
  deriving DecidableEq

/-- `esi_sexpecting_key`: an ESI that waits for a key. -/
structure EsiSexpectingKey where
  esiFd : ℤ
  key : CString
  deriving DecidableEq

/-- `esi_information`. -/
structure EsiInformation (config : Config) where
  esiId : ℤ
  esiNumericName : ℤ
  lastEstimatedBurst : config.arithmetic.Float
  lastRealBurst : ℤ
  waitedBursts : ℤ

/-- The lists between which an ESI is moved. -/
inductive Queue
  | new
  | ready
  | execution
  | blocked
  | finished
  deriving DecidableEq, Repr

/-- The flag that `update_blocked_esi_queue` is told to clear. -/
inductive UnblockFlag
  | updateBlockedEsiQueue
  | unlockEsiByConsole
  deriving DecidableEq, Repr

/-- The global variables of the scheduler and the pointers of its main loop. A
pointer that was never set, or whose string was freed, is `none`. -/
structure PlanificadorState (config : Config) where
  gLockedKeys : List KeyBlocker
  gEsisSexpectingKeys : List EsiSexpectingKey
  gEsiBursts : List (EsiInformation config)
  gNewBlockedByConsoleEsis : List EsiSexpectingKey
  gNewKilledEsis : List ℤ
  gLastUnlockedByConsoleKeys : List CString
  gNewQueue : List ℤ
  gReadyQueue : List ℤ
  gExecutionQueue : List ℤ
  gBlockedQueue : List ℤ
  gFinishedQueue : List ℤ
  finishedEsiFlag : Bool
  newEsiFlag : Bool
  rescheduleFlag : Bool
  updateBlockedEsiQueueFlag : Bool
  killedEsiFlag : Bool
  schedulerPausedFlag : Bool
  blockEsiByConsoleFlag : Bool
  unlockEsiByConsoleFlag : Bool
  /-- The sockets of ESIs in `connected_fds`. -/
  connectedFds : List ℤ
  executingEsi : ℤ
  mutexCoordinador : ℕ
  esiNumericArrivalOrder : ℤ
  lastKeyInquired : Option CString
  keyToUnlock : Option CString
  /-- The sockets to which `PROTOCOL_PE_EXEC` was sent and whose result has not
  been read. -/
  outstanding : List ℤ
  /-- All sockets to which `PROTOCOL_PE_EXEC` was sent, in order. -/
  orders : List ℤ
  /-- The ESIs that left the blocked queue, each with the key that it waited for,
  as the log shows them. -/
  unblocked : List EsiSexpectingKey
  /-- The ESIs that were woken by a release and have not executed another
  statement, left or been blocked since, each with the key released. -/
  turns : List EsiSexpectingKey

variable {config : Config}

/-- `create_administrative_structures`, with the values of the globals when the
main loop begins. -/
def PlanificadorState.init (config : Config) : PlanificadorState config where
  gLockedKeys := config.blockedKeys.map fun key => ⟨key, -1⟩
  gEsisSexpectingKeys := []
  gEsiBursts := []
  gNewBlockedByConsoleEsis := []
  gNewKilledEsis := []
  gLastUnlockedByConsoleKeys := []
  gNewQueue := []
  gReadyQueue := []
  gExecutionQueue := []
  gBlockedQueue := []
  gFinishedQueue := []
  finishedEsiFlag := false
  newEsiFlag := false
  rescheduleFlag := true
  updateBlockedEsiQueueFlag := false
  killedEsiFlag := false
  schedulerPausedFlag := false
  blockEsiByConsoleFlag := false
  unlockEsiByConsoleFlag := false
  connectedFds := []
  executingEsi := -1
  mutexCoordinador := 1
  esiNumericArrivalOrder := 1
  lastKeyInquired := none
  keyToUnlock := none
  outstanding := []
  orders := []
  unblocked := []
  turns := []

namespace PlanificadorState

/-- The list behind a queue. -/
def queue (state : PlanificadorState config) : Queue → List ℤ
  | .new => state.gNewQueue
  | .ready => state.gReadyQueue
  | .execution => state.gExecutionQueue
  | .blocked => state.gBlockedQueue
  | .finished => state.gFinishedQueue

/-- Replace the list behind a queue. -/
def setQueue (state : PlanificadorState config) (queue : Queue) (list : List ℤ) :
    PlanificadorState config :=
  match queue with
  | .new => { state with gNewQueue := list }
  | .ready => { state with gReadyQueue := list }
  | .execution => { state with gExecutionQueue := list }
  | .blocked => { state with gBlockedQueue := list }
  | .finished => { state with gFinishedQueue := list }

/-- Set a flag to zero. -/
def clear (state : PlanificadorState config) : UnblockFlag → PlanificadorState config
  | .updateBlockedEsiQueue => { state with updateBlockedEsiQueueFlag := false }
  | .unlockEsiByConsole => { state with unlockEsiByConsoleFlag := false }

end PlanificadorState

/-! ## Events -/

/-- The console commands that change the state of the scheduler. A process is
named by its number of arrival. -/
inductive Command
  | pausar
  | continuar
  | bloquear (key : CString) (pid : ℤ)
  | desbloquear (key : CString)
  | kill (pid : ℤ)
  deriving DecidableEq

/-- What the coordinator sends. -/
inductive CoordinatorMessage
  | isThisKeyBlocked (key : CString)
  | isKeyBlockedByExecutingEsi
  | blockKey
  | unlockKey (key : CString)
  | keyStatus
  deriving DecidableEq

/-- What the scheduler answers to the coordinator. -/
inductive CoordinatorAnswer
  | keyIsBlocked
  | keyIsNotBlocked
  | keyBlockedByExecutingEsi
  | keyNotBlockedByExecutingEsi
  | keyBlockedSuccesfully
  | keyUnlockedSuccesfully
  deriving DecidableEq, Repr

/-- The codes that an ESI sends. -/
inductive ExecutionResult
  | executionSuccess
  | iAmBlocked
  | iBrokeTheLaw
  | finishedScript
  | didntFinishScript
  | other
  deriving DecidableEq, Repr

/-- The outcome of `recv`. When it fails, the variable that it should fill keeps
whatever was there. -/
inductive Received
  | code (result : ExecutionResult)
  | failure (garbage : ExecutionResult)
  deriving DecidableEq, Repr

/-- One event of the main loop, or one console command between two of them.
`unreachable` lists the sockets on which `send` fails. -/
inductive Event
  /-- The listener is ready; the operating system chooses the socket. -/
  | newClient (newClientFd : ℤ) (handshake : Bool)
  | coordinator (message : CoordinatorMessage)
  /-- The executing ESI is ready. The second code is read only after a success.
  Commands can be typed while the loop sleeps because of a pause. -/
  | executingEsi (result scriptEnd : Received) (meanwhile : List Command)
      (unreachable : List ℤ)
  /-- The end of a turn of the loop, after all ready sockets. -/
  | endOfTurn (unreachable : List ℤ)
  | console (command : Command)
  deriving DecidableEq

end SockMyPort.Planificador
