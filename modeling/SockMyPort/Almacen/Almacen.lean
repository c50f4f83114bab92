/-
# The coordinator and its instances

The threads of the ESIs, the queues of the instances, the threads of
`handle_instance_connection` that serve them, and the processes of the instances. What is
done under one lock is one step, and so is the exchange of an instruction and its answer,
during which the lock of the instance is held; the steps of all threads and processes are
interleaved. Whether a GET may create its key is decided by the scheduler.

A SET is followed by the compaction of the other instances when it needs one. They may
compact at any time here.
-/

import SockMyPort.Coordinador.Requests
import SockMyPort.Coordinador.RoundRobin
import SockMyPort.Instancia.Lifetimes
import SockMyPort.Sistema.KeyStatus

namespace SockMyPort.Almacen

open SockMyPort.Commons SockMyPort.Coordinador SockMyPort.Instancia Library

/-! ## State -/

/-- Where a thread of `handle_instance_connection` is in its loop. -/
inductive LoopPhase
  /-- Before `request_list_pop`. -/
  | waiting
  | handling (request : RequestNode)
  /-- The lock of the instance has been given back. -/
  | answered (request : RequestNode) (outcome : Outcome)
  | left
  deriving DecidableEq

/-- A thread of `handle_instance_connection`: its instance, and the socket that it was
created for. -/
structure InstanceThread where
  node : InstanceRef
  fd : ℤ
  phase : LoopPhase
  deriving DecidableEq

/-- The state. The queues of all instances are one list: the queue of an instance is what
has its node. The log has what was done, each time with the key of the request. -/
structure AlmacenState where
  tables : Tables
  requests : List (InstanceRef × RequestNode)
  threads : List InstanceThread
  peers : InstanceRef → InstanceProcess
  log : List (CString × Effect)

/-- How the exchange of an instruction and its answer ends. -/
inductive Fate
  /-- Something cannot be sent. -/
  | sendFailure
  /-- The instance is gone before it reads the instruction. -/
  | recvFailure
  /-- The instance does what it is told, and the answer does not arrive. -/
  | answerLost (sendOk : Bool)
  | answered
  deriving DecidableEq

/-- What can happen. -/
inductive AlmacenEvent
  /-- `key_table_create_key` after a GET of a free key. -/
  | get (key : CString)
  /-- The end of `handle_esi_operation` for a SET or a STORE. -/
  | request (esiFd : ℤ) (type : RequestType) (key : CString)
  /-- `instance_list_add`; the thread enters the loop when the confirmation can be sent. -/
  | connect (name : CString) (fd : ℤ) (created : InstanceRef) (testConnection confirmed : Bool)
  /-- `request_list_pop`, with the comparison of the sockets. -/
  | pop (thread : ℕ)
  | exchange (thread : ℕ) (fate : Fate)
  /-- What follows the exchange in a turn of the loop. -/
  | conclude (thread : ℕ)
  /-- An instance does something else, or is started again. -/
  | peer (node : InstanceRef) (event : LifeEvent)
  deriving DecidableEq

/-! ## The instances -/

/-- What an instance receives. The parser of the scripts accepts no empty value. -/
def instruction (isNew : Bool) (request : RequestNode) (sendOk : Bool) : Option Request :=
  match request.type with
  | .set value =>
      if hvalue : value ≠ [] then some (.set ⟨isNew, request.key, value, hvalue, sendOk⟩)
      else none
  | .store => some (.store request.key sendOk)

/-- What an instance answers to an instruction, as the coordinator receives it. -/
def answerOf (config : Instancia.Config) (state : InstanceState) : Request → Outcome
  | .set request =>
      let handling := instanceThreadApiSet config state request
      .status (Instancia.statusCode handling.notified) (toSizeT handling.entriesUsed)
  | .store key _ => .status (Instancia.statusCode (instanceStore config state key).2) 0
  | _ => .recvFailure

/-- Whether an event of an instance is not an instruction of a SET or a STORE. -/
def isUninstructed : LifeEvent → Bool
  | .thread (.request (.set _)) | .thread (.request (.store _ _)) => false
  | _ => true

variable (setup : Setup) (config : InstanceRef → Instancia.Config)

/-- An instance does something. -/
def peerStep (almacen : AlmacenState) (node : InstanceRef) (event : LifeEvent) :
    Option AlmacenState :=
  (lifeStep (config node) (almacen.peers node) event).map fun next =>
    { almacen with peers := Function.update almacen.peers node next }

/-! ## The coordinator -/

/-- A thread goes on with another phase. -/
def AlmacenState.setPhase (almacen : AlmacenState) (i : ℕ) (thread : InstanceThread)
    (phase : LoopPhase) : AlmacenState :=
  { almacen with threads := almacen.threads.set i { thread with phase := phase } }

/-- Record what was done for a request. -/
def AlmacenState.record (almacen : AlmacenState) (key : CString) (effects : List Effect) :
    AlmacenState :=
  { almacen with log := almacen.log ++ effects.map fun effect => (key, effect) }

/-- The end of `handle_esi_operation` for a SET or a STORE. -/
def esiRequest (almacen : AlmacenState) (esiFd : ℤ) (type : RequestType) (key : CString) :
    AlmacenState :=
  match dispatch setup almacen.tables key [] with
  | (none, dispatched) =>
      AlmacenState.record { almacen with tables := dispatched } key
        [.replied esiFd .illegalOperation]
  | (some node, dispatched) =>
      { almacen with
        tables := dispatched
        requests := almacen.requests ++ [(node, ⟨esiFd, type, key, []⟩)] }

/-- The beginning of `handle_instance_connection`. A new node has an empty queue. -/
def instanceConnect (almacen : AlmacenState) (name : CString) (fd : ℤ) (created : InstanceRef)
    (testConnection confirmed : Bool) : Option AlmacenState :=
  if almacen.tables.instanceList.contains created then none
  else
    match instanceListAdd almacen.tables name fd created testConnection with
    | (none, _) => some almacen
    | (some node, added) =>
        some { almacen with
          tables := added
          threads :=
            if confirmed then almacen.threads ++ [⟨node, fd, .waiting⟩] else almacen.threads }

/-- `request_list_pop` and the comparison of the sockets: a thread whose instance has
connected again gives the request back and leaves. -/
def popRequest (almacen : AlmacenState) (i : ℕ) : Option AlmacenState := do
  let thread ← almacen.threads[i]?
  let (_, request) ← almacen.requests.find? fun queued => queued.1 = thread.node
  let popped := { almacen with
    requests := listRemoveByCondition almacen.requests fun queued => queued.1 = thread.node }
  match thread.phase with
  | .waiting =>
      if thread.fd = (almacen.tables.nodes thread.node).fd then
        some (popped.setPhase i thread (.handling request))
      else
        some ({ popped with requests := popped.requests ++ [(thread.node, request)] }.setPhase i
          thread .left)
  | _ => none

/-- What a handler leaves, and the end of the turn: after an error the instance is removed,
unless it has connected again, and the loop ends. -/
def concludeTurn (almacen : AlmacenState) (i : ℕ) (thread : InstanceThread) (request : RequestNode)
    (handled : Handled) : AlmacenState :=
  let reconnected := !decide (thread.fd = (handled.tables.nodes thread.node).fd)
  let concluded := { almacen with
    tables :=
      if handled.success || reconnected then handled.tables
      else instanceListRemove handled.tables (handled.tables.nodes thread.node).name
    requests := almacen.requests ++ handled.queued.toList }
  (concluded.setPhase i thread (if handled.success then .waiting else .left)).record request.key
    handled.effects

/-- The exchange. A STORE of a key that was never set is answered without it. -/
def exchangeRequest (almacen : AlmacenState) (i : ℕ) (fate : Fate) : Option AlmacenState := do
  let thread ← almacen.threads[i]?
  match thread.phase with
  | .handling request =>
      let isNew := keyTableIsNew almacen.tables request.key
      if request.type = .store ∧ isNew = true then
        some (concludeTurn almacen i thread request
          (answer (keyTableRemove almacen.tables request.key) request .illegalOperation true))
      else
        let instructed := fun (asked : AlmacenState) (outcome : Outcome) =>
          (asked.setPhase i thread (.answered request outcome)).record request.key
            [.instruction thread.node]
        match fate with
        | .sendFailure => some (instructed almacen .sendFailure)
        | .recvFailure => some (instructed almacen .recvFailure)
        | .answerLost sendOk => do
            let asked ← instruction isNew request sendOk
            let done ← peerStep config almacen thread.node (.thread (.request asked))
            some (instructed done .recvFailure)
        | .answered => do
            let asked ← instruction isNew request true
            let done ← peerStep config almacen thread.node (.thread (.request asked))
            some (instructed done
              (answerOf (config thread.node) (almacen.peers thread.node).filed.state asked))
  | _ => none

/-- `instance_handle_set_request` and `instance_handle_store_request` after the exchange. -/
def handleAnswer (tables : Tables) (node : InstanceRef) (request : RequestNode)
    (outcome : Outcome) : Handled :=
  match request.type with
  | .set _ => instanceHandleSetRequest setup tables node request outcome
  | .store => instanceHandleStoreRequest tables request outcome

/-- The rest of the turn. -/
def concludeRequest (almacen : AlmacenState) (i : ℕ) : Option AlmacenState := do
  let thread ← almacen.threads[i]?
  match thread.phase with
  | .answered request outcome =>
      some (concludeTurn almacen i thread request
        (handleAnswer setup almacen.tables thread.node request outcome))
  | _ => none

/-! ## Runs -/

/-- One step. -/
def almacenStep : PartialStep AlmacenState AlmacenEvent := fun almacen event =>
  match event with
  | .get key => some { almacen with tables := keyTableCreateKey almacen.tables key none }
  | .request esiFd type key => some (esiRequest setup almacen esiFd type key)
  | .connect name fd created testConnection confirmed =>
      instanceConnect almacen name fd created testConnection confirmed
  | .pop thread => popRequest almacen thread
  | .exchange thread fate => exchangeRequest config almacen thread fate
  | .conclude thread => concludeRequest setup almacen thread
  | .peer node event => if isUninstructed event then peerStep config almacen node event else none

/-- The coordinator before the first connection. -/
def AlmacenState.init (mountPoints : InstanceRef → CString) : AlmacenState where
  tables := LoadState.init.tables
  requests := []
  threads := []
  peers node := firstProcess (config node) (mountPoints node)
  log := []

/-- The request that a thread has. -/
def LoopPhase.request : LoopPhase → Option RequestNode
  | .waiting | .left => none
  | .handling request | .answered request _ => some request

/-- The requests that are queued, and those that threads have. -/
def AlmacenState.inFlight (almacen : AlmacenState) : List RequestNode :=
  almacen.requests.map Prod.snd ++ almacen.threads.filterMap fun thread => thread.phase.request

/-- No request with the key is in flight. -/
def AlmacenState.isQuiet (almacen : AlmacenState) (key : CString) : Bool :=
  almacen.inFlight.all fun request => request.key ≠ key

/-- An ESI sends nothing about a key before its last request about it has been answered, and
no two ESIs have the same key. -/
def keepsTurns (almacen : AlmacenState) : AlmacenEvent → Bool
  | .get key | .request _ _ key => almacen.isQuiet key
  | _ => true

end SockMyPort.Almacen
