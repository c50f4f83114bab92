/-
# How an answer reaches a thread

`scheduler-connection.c` at the level of whole messages. One thread receives from the
scheduler; it answers the queries of the console and leaves everything else in
`pending_protocol`, where the thread that wakes up finds it. Two semaphores order this,
and a second answer is received without them.

A thread that has decided to send does so in a step of its own. The processes are those of
the system, without its queue of answers.
-/

import SockMyPort.Sistema.Sistema

namespace SockMyPort.Sistema

open SockMyPort.Commons SockMyPort.Planificador Library

variable {config : Config}

/-- An answer of the scheduler, with the owners of the keys at that moment and the ESI whose
operation it is about. -/
structure SchedulerAnswer where
  code : CoordinatorAnswer
  owners : Owners
  requester : ℕ
  deriving DecidableEq

/-- What the scheduler and its console send. -/
inductive FromScheduler
  | answer (answer : SchedulerAnswer)
  /-- `PROTOCOL_PC_KEY_STATUS`. -/
  | keyStatus (key : CString)
  deriving DecidableEq

/-- The ESI whose operation an answer is about. -/
def FromScheduler.requester : FromScheduler → Option ℕ
  | .answer given => some given.requester
  | .keyStatus _ => none

/-- Where `handle_scheduler_connection` is. -/
inductive HandlerPhase
  /-- In `sem_wait(&protocol_recv_sem)`. -/
  | waiting
  /-- In `CHECK_RECV`. -/
  | receiving
  /-- In `scheduler_send_key_status`. -/
  | answering (key : CString)
  deriving DecidableEq

/-- The processes and the connection of the scheduler. -/
structure SchedulerConnection (config : Config) where
  /-- The processes, and the messages that were sent to the scheduler. -/
  sistema : SistemaState config
  /-- The messages that a thread is about to send. -/
  unsent : List (CoordinatorMessage × ℕ)
  /-- What was sent to the coordinator and not received. -/
  incoming : List FromScheduler
  handler : HandlerPhase
  /-- The variable keeps its value when it is read. -/
  pendingProtocol : Option SchedulerAnswer
  pendingProtocolSem : ℕ
  protocolRecvSem : ℕ
  /-- All answers of the scheduler, in order. -/
  answered : List SchedulerAnswer
  /-- What threads took for the answer to what they had sent, in order. -/
  taken : List (ℕ × FromScheduler)
  /-- The coordinator has called `scheduler_exit`. -/
  exited : Bool

/-- What can happen next. -/
inductive ConnectionAction
  /-- A step of the processes. -/
  | process (action : Action)
  /-- A thread sends what it is about to send. -/
  | send (who : ℕ)
  /-- The thread that receives from the scheduler goes on. -/
  | handler
  /-- The console asks for the state of a key. -/
  | keyStatus (key : CString)
  deriving DecidableEq

namespace SchedulerConnection

/-- Nothing is connected but the scheduler. -/
def init (config : Config) : SchedulerConnection config where
  sistema := .init config
  unsent := []
  incoming := []
  handler := .waiting
  pendingProtocol := none
  pendingProtocolSem := 0
  protocolRecvSem := 1
  answered := []
  taken := []
  exited := false

/-- The thread has not sent what it is about to send. -/
def isUnsent (connection : SchedulerConnection config) (who : ℕ) : Bool :=
  connection.unsent.any fun message => message.2 = who

/-- What a thread starts from: it sees at most one answer, and what it sends is kept
apart. -/
def seen (connection : SchedulerConnection config) (answers : List (CoordinatorAnswer × Owners)) :
    SistemaState config :=
  { connection.sistema with toPlanificador := [], toCoordinador := answers }

/-- A thread has gone on and is about to send its messages. -/
def goOn (connection : SchedulerConnection config) (next : SistemaState config) :
    SchedulerConnection config :=
  { connection with
    sistema := { next with toPlanificador := connection.sistema.toPlanificador }
    unsent := connection.unsent ++ next.toPlanificador }

/-- `sem_post(&protocol_recv_sem)`, which does not come between the two questions of
`scheduler_recv_key_state`. -/
def post (connection : SchedulerConnection config) (phase : Phase) (answer : CoordinatorAnswer) :
    SchedulerConnection config :=
  match phase, answer with
  | .recvKeyState _, .keyIsBlocked => connection
  | _, _ => { connection with protocolRecvSem := connection.protocolRecvSem + 1 }

/-- A thread takes something for the answer to what it has sent. The coordinator exits when
it cannot be. -/
def take (connection : SchedulerConnection config) (who : ℕ) (esi : Esi) (succeeds : Bool)
    (item : FromScheduler) : SchedulerConnection config :=
  let took := { connection with taken := connection.taken ++ [(who, item)] }
  match item with
  | .keyStatus _ => { took with exited := true }
  | .answer answer =>
      match (connection.seen [(answer.code, answer.owners)]).recvAnswer who esi succeeds with
      | none => { took with exited := true }
      | some next => (took.goOn next).post esi.phase answer.code

/-- A thread goes on. -/
def thread (connection : SchedulerConnection config) (who : ℕ) (succeeds : Bool) :
    Option (SchedulerConnection config) := do
  let esi ← connection.sistema.esis[who]?
  if connection.isUnsent who then none
  else
    match esi.phase with
    | .sent _ | .requested _ => ((connection.seen []).thread who succeeds).map connection.goOn
    -- `scheduler_pending_protocol_recv`
    | .recvKeyState _ | .blockKey _ | .unblockKey _ =>
        match connection.pendingProtocolSem, connection.pendingProtocol with
        | count + 1, some answer =>
            some ({ connection with pendingProtocolSem := count }.take who esi succeeds
              (.answer answer))
        | _, _ => none
    -- `CHECK_RECV` of the second answer
    | .recvBlockedByExecutingEsi _ =>
        match connection.incoming with
        | item :: rest => some ({ connection with incoming := rest }.take who esi succeeds item)
        | [] => none
    | _ => none

/-- A thread sends what it is about to send. -/
def send (connection : SchedulerConnection config) (who : ℕ) :
    Option (SchedulerConnection config) := do
  let message ← connection.unsent.find? fun message => message.2 = who
  some { connection with
    sistema := { connection.sistema with
      toPlanificador := connection.sistema.toPlanificador ++ [message] }
    unsent := connection.unsent.filter fun message => message.2 ≠ who }

/-- The scheduler takes the first message of the coordinator. -/
def coordinatorMessage (connection : SchedulerConnection config) :
    Option (SchedulerConnection config) := do
  let (_, sender) ← connection.sistema.toPlanificador.head?
  let next ← { connection.sistema with toCoordinador := [] }.coordinatorMessage
  let answers := next.toCoordinador.map fun answer => ⟨answer.1, answer.2, sender⟩
  some { connection with
    sistema := { next with toCoordinador := [] }
    incoming := connection.incoming ++ answers.map .answer
    answered := connection.answered ++ answers }

/-- The loop of `handle_scheduler_connection`, from one blocking call to the next. The
answer to a query is about no operation. -/
def handlerGoesOn (connection : SchedulerConnection config) :
    Option (SchedulerConnection config) :=
  match connection.handler with
  | .waiting =>
      match connection.protocolRecvSem with
      | 0 => none
      | count + 1 => some { connection with protocolRecvSem := count, handler := .receiving }
  | .receiving =>
      match connection.incoming with
      | [] => none
      | .keyStatus key :: rest =>
          some { connection with incoming := rest, handler := .answering key }
      -- `scheduler_pending_protocol_set`
      | .answer answer :: rest =>
          some { connection with
            incoming := rest
            pendingProtocol := some answer
            pendingProtocolSem := connection.pendingProtocolSem + 1
            handler := .waiting }
  | .answering _ =>
      some { connection with
        sistema := { connection.sistema with
          toPlanificador := connection.sistema.toPlanificador ++ [(.keyStatus, 0)] }
        protocolRecvSem := connection.protocolRecvSem + 1
        handler := .waiting }

/-- `key_status` of the console, which waits for `mutex_coordinador` and posts it. -/
def consoleKeyStatus (connection : SchedulerConnection config) (key : CString) :
    Option (SchedulerConnection config) :=
  (semWait connection.sistema.planificador).map fun _ =>
    { connection with incoming := connection.incoming ++ [.keyStatus key] }

end SchedulerConnection

/-- One step of one process, while the coordinator runs. -/
def connectionStep (config : Config) :
    PartialStep (SchedulerConnection config) ConnectionAction := fun connection action =>
  if connection.exited then none
  else
    match action with
    | .process .coordinatorMessage => connection.coordinatorMessage
    | .process (.thread who succeeds) => connection.thread who succeeds
    | .process action =>
        (step config connection.sistema action).map fun next => { connection with sistema := next }
    | .send who => connection.send who
    | .handler => connection.handlerGoesOn
    | .keyStatus key => connection.consoleKeyStatus key

/-! ## What is meant -/

namespace SchedulerConnection

/-- The answers that have not been taken: the one in `pending_protocol`, and those that were
not received. -/
def onTheWay (connection : SchedulerConnection config) : List FromScheduler :=
  (if connection.pendingProtocolSem = 0 then [] else
    connection.pendingProtocol.toList.map .answer) ++
    connection.incoming.filter fun item => item.requester.isSome

/-- What the program is meant to keep: every thread takes the answers to what it has sent,
each of them once and in order, and nothing else. -/
structure OwnAnswers (connection : SchedulerConnection config) : Prop where
  own : ∀ took ∈ connection.taken, took.2.requester = some took.1
  once : connection.answered.map .answer = connection.taken.map Prod.snd ++ connection.onTheWay
  running : connection.exited = false

end SchedulerConnection

end SockMyPort.Sistema
