/-
# The scheduler, the coordinator and the ESIs together

The scheduler and the coordinator talk over one connection; the coordinator's
threads share it. Every step is a step of one process. ESIs are named by the order
in which they connect, since a socket can be used again.

Three fields record what was done and by whom; no function reads them. The query of
the console about the state of a key is left out: it changes no lock and no answer, but it
can stop the scheduler. What is asked of an instance ends in one step, with either outcome.
-/

import SockMyPort.Sistema.Esi

namespace SockMyPort.Sistema

open SockMyPort.Commons SockMyPort.Planificador Library

variable {config : Config}

/-- The keys that are locked, each with the ESI that is connected on the socket of
its owner. -/
abbrev Owners := List (CString × Option ℕ)

/-- A SET or STORE that was queued on an instance: the ESI that sent it, and the
owners at the moment of the answer that allowed it. -/
structure Request where
  operation : EsiOperation
  sender : ℕ
  owners : Owners
  deriving DecidableEq

/-- A key that was locked because of `PROTOCOL_CP_BLOCK_KEY`: its owner, and the ESI
whose GET made the coordinator ask for it last. -/
structure BlockedKey where
  key : CString
  owner : Option ℕ
  inquirer : Option ℕ
  deriving DecidableEq

/-- All processes, and the two directions of the connection. -/
structure SistemaState (config : Config) where
  planificador : PlanificadorState config
  esis : List Esi
  /-- Each message with the ESI whose operation it is about. -/
  toPlanificador : List (CoordinatorMessage × ℕ)
  /-- Each answer with the owners at that moment. -/
  toCoordinador : List (CoordinatorAnswer × Owners)
  /-- The ESI whose operation made the coordinator ask whether a key is blocked. -/
  inquirer : Option ℕ
  requests : List Request
  blockedKeys : List BlockedKey

/-- What can happen next. -/
inductive Action
  /-- An ESI connects to the scheduler. -/
  | connect (fd : ℤ) (handshake : Bool) (lines : List EsiOperation)
  /-- The scheduler handles a message of the coordinator. -/
  | coordinatorMessage
  /-- The scheduler handles the executing ESI. -/
  | executingEsi (garbage scriptGarbage : ExecutionResult) (meanwhile : List Command)
      (unreachable : List ℤ)
  | endOfTurn (unreachable : List ℤ)
  | console (command : Command)
  /-- An ESI goes on. -/
  | esi (who : ℕ)
  /-- An ESI exits. -/
  | die (who : ℕ)
  /-- The thread that serves an ESI goes on; the instances do what is asked or not. -/
  | thread (who : ℕ) (succeeds : Bool)
  deriving DecidableEq

/-- The ESI that is connected on a socket. -/
def processOn (esis : List Esi) (fd : ℤ) : Option ℕ :=
  esis.findIdx? fun esi => esi.connected && esi.fd = fd

/-- The owners of the locked keys. -/
def ownersOf (esis : List Esi) (lockedKeys : List KeyBlocker) : Owners :=
  lockedKeys.map fun blocker => (blocker.key, processOn esis blocker.esiId)

namespace SistemaState

/-- Nothing is connected. -/
def init (config : Config) : SistemaState config where
  planificador := .init config
  esis := []
  toPlanificador := []
  toCoordinador := []
  inquirer := none
  requests := []
  blockedKeys := []

/-- The scheduler has taken a step: the ESIs notice. -/
def afterPlanificador (sistema : SistemaState config) (next : PlanificadorState config) :
    SistemaState config :=
  { sistema with
    planificador := next
    esis := sistema.esis.map
      (Esi.hear next.connectedFds (next.orders.drop sistema.planificador.orders.length)) }

/-- A new ESI. -/
def connect (sistema : SistemaState config) (fd : ℤ) (handshake : Bool)
    (lines : List EsiOperation) :
    Option (SistemaState config) := do
  let next ← mainStep config sistema.planificador (.newClient fd handshake)
  let heard := sistema.afterPlanificador next
  some { heard with
    esis := heard.esis ++
      [⟨fd, lines, .waitForExecutionOrder, 0, [], true, handshake⟩] }

/-- Who asked last whether a key is blocked. -/
def inquirerAfter (sistema : SistemaState config) : CoordinatorMessage → ℕ → Option ℕ
  | .isThisKeyBlocked _, sender => some sender
  | _, _ => sistema.inquirer

/-- The scheduler takes the first message of the coordinator. -/
def coordinatorMessage (sistema : SistemaState config) : Option (SistemaState config) :=
  match sistema.toPlanificador with
  | [] => none
  | (message, sender) :: rest => do
      let (next, answer) ← coordinatorBranch sistema.planificador message
      let added := next.gLockedKeys.drop sistema.planificador.gLockedKeys.length
      some { sistema with
        planificador := next
        toPlanificador := rest
        toCoordinador := sistema.toCoordinador ++
          answer.toList.map fun answer => (answer, ownersOf sistema.esis next.gLockedKeys)
        inquirer := sistema.inquirerAfter message sender
        blockedKeys := sistema.blockedKeys ++ added.map fun blocker =>
          ⟨blocker.key, processOn sistema.esis blocker.esiId, sistema.inquirer⟩ }

/-- The scheduler reads from the executing ESI, when it is ready. -/
def executingEsi (sistema : SistemaState config) (garbage scriptGarbage : ExecutionResult)
    (meanwhile : List Command) (unreachable : List ℤ) : Option (SistemaState config) := do
  let who ← processOn sistema.esis sistema.planificador.executingEsi
  let esi ← sistema.esis[who]?
  let (result, scriptEnd, read) ← esi.recvResult garbage scriptGarbage
  let next ← mainStep config sistema.planificador
    (.executingEsi result scriptEnd meanwhile unreachable)
  some ({ sistema with esis := sistema.esis.set who read }.afterPlanificador next)

/-- Only one thread at a time reads answers: the one that has been told that a key
is blocked, while there is one. -/
def readsAnswers (sistema : SistemaState config) : Phase → Bool
  | .recvBlockedByExecutingEsi _ => true
  | _ => !sistema.esis.any fun esi =>
      match esi.phase with
      | .recvBlockedByExecutingEsi _ => true
      | _ => false

/-- The thread of an ESI goes to another phase and sends messages. -/
def advance (sistema : SistemaState config) (who : ℕ) (esi : Esi)
    (outcome : Phase × List CoordinatorMessage) : SistemaState config :=
  { sistema with
    esis := sistema.esis.set who { esi with phase := outcome.1 }
    toPlanificador := sistema.toPlanificador ++ outcome.2.map fun message => (message, who) }

/-- The thread of an ESI takes the first answer of the scheduler. -/
def recvAnswer (sistema : SistemaState config) (who : ℕ) (esi : Esi) (succeeds : Bool) :
    Option (SistemaState config) :=
  match sistema.toCoordinador with
  | [] => none
  | (answer, owners) :: rest =>
      let taken := { sistema with toCoordinador := rest }
      match esi.phase with
      | .recvKeyState operation =>
          (recvKeyState operation answer).map fun outcome => taken.advance who esi outcome
      | .recvBlockedByExecutingEsi operation =>
          (recvBlockedByExecutingEsi operation succeeds answer).map fun phase =>
            { taken.advance who esi (phase, []) with
              requests :=
                if phase = .requested operation then
                  sistema.requests ++ [⟨operation, who, owners⟩]
                else sistema.requests }
      -- the answer is not looked at
      | .blockKey _ | .unblockKey _ => some (taken.advance who esi (.replied .everythingOk, []))
      | _ => none

/-- The thread of an ESI goes on. -/
def thread (sistema : SistemaState config) (who : ℕ) (succeeds : Bool) :
    Option (SistemaState config) := do
  let esi ← sistema.esis[who]?
  match esi.phase with
  | .sent operation => some (sistema.advance who esi (askKeyState operation))
  | .requested operation =>
      (handleRequest operation succeeds).map fun outcome => sistema.advance who esi outcome
  | phase => if sistema.readsAnswers phase then sistema.recvAnswer who esi succeeds else none

end SistemaState

/-- One step of one process. -/
def step (config : Config) : PartialStep (SistemaState config) Action := fun sistema action =>
  match action with
  | .connect fd handshake lines => sistema.connect fd handshake lines
  | .coordinatorMessage => sistema.coordinatorMessage
  | .executingEsi garbage scriptGarbage meanwhile unreachable =>
      sistema.executingEsi garbage scriptGarbage meanwhile unreachable
  | .endOfTurn unreachable =>
      (mainStep config sistema.planificador (.endOfTurn unreachable)).map sistema.afterPlanificador
  | .console command =>
      (mainStep config sistema.planificador (.console command)).map sistema.afterPlanificador
  | .esi who => do
      let esi ← sistema.esis[who]?
      let next ← esi.run
      some { sistema with esis := sistema.esis.set who next }
  | .die who => do
      let esi ← sistema.esis[who]?
      some { sistema with esis := sistema.esis.set who { esi with alive := false } }
  | .thread who succeeds => sistema.thread who succeeds

end SockMyPort.Sistema
