/-
# The threads of the coordinator and the connections of instances

`coordinador.c`, `instance-connection.c` and `instance-list.c` as far as they use the sockets
of instances, one `send` or `recv` at a time, with the loop of `instance_thread_api` at the
other end. Each connection has a thread of its own that handles it; the thread of the
scheduler asks for values, and the handler of an instance that had to compact tells the
others. A node of the list has a lock, and the list has one.

A descriptor is a number. It is the number of a connection from `accept` to `close`, and
then `accept` can give it to another one. Requests come from ESIs and keys from the key
table; they are taken as they come.
-/

import SockMyPort.Library.Channel
import SockMyPort.Library.Runs
import SockMyPort.Sistema.WireAgreement

namespace SockMyPort.Sistema.Sockets

open SockMyPort.Commons SockMyPort.Protocolo SockMyPort.Libs SockMyPort.Coordinador
  SockMyPort.Instancia Library

/-! ## Critical sections -/

/-- A thread of the coordinator: the one of the scheduler, or the one that handles a
connection. -/
inductive Thread
  | scheduler
  | handler (connection : ℕ)
  deriving DecidableEq

/-- An instruction that the coordinator can send. -/
abbrev IssuedInstruction := { instruction : Instruction // Issued instruction }

/-- The request of `instance_test_connection`. -/
def issuedIsAlive : IssuedInstruction :=
  ⟨.isAlive, ⟨nofun, nofun⟩⟩

/-- The request of `instance_request_value`, for a key that an ESI could name. -/
def issuedRequestValue (key : { key : CString // key.length ≤ 40 }) : IssuedInstruction :=
  ⟨.requestValue key, ⟨fun _ hkey => Option.some.inj hkey ▸ key.property, nofun⟩⟩

/-- The keys of an instance in the key table. -/
abbrev KeyList :=
  { keys : List CString // (∀ key ∈ keys, key.length ≤ 40) ∧ keys.length < 2 ^ 63 }

/-- What is sent in a critical section of `instance->lock`. -/
inductive Message
  | configuration (keyList : KeyList)
  | instruction (instruction : IssuedInstruction)

/-- The blocks of a message, one for each `send`. -/
def Message.blocks (setup : EntriesSetup) : Message → List (List UInt8)
  | .configuration keyList => instanceSendConfirmation setup keyList
  | .instruction issued => issued.val.blocks

/-- `instance_send_set_instruction`, `instance_send_store_instruction` and the functions that
receive the status take the descriptor as a parameter. The others look at the node for
each call. -/
def Message.takesFd : Message → Bool
  | .instruction ⟨.set _ _ _, _⟩ | .instruction ⟨.store _, _⟩ => true
  | _ => false

/-- An instance is asked whether it is alive. -/
def Message.isTest : Message → Bool
  | .instruction ⟨.isAlive, _⟩ => true
  | _ => false

/-- A request of an ESI for an instance. -/
abbrev Request :=
  { instruction : IssuedInstruction // (Message.instruction instruction).takesFd = true }

/-- The parameter, when the node has this descriptor. -/
def Message.argument (message : Message) (fd : Option ℕ) : Option ℕ :=
  if message.takesFd then fd else none

/-- How far a thread has come: the blocks that it has left, or the fields that it has
read. -/
inductive Phase
  | sending (left : List (List UInt8))
  | receiving (chunks : List (List (UInt8 × ℕ)))

/-- What the thread that holds `instance->lock` is doing. Critical sections are numbered. -/
structure CriticalSection where
  thread : Thread
  tag : ℕ
  message : Message
  fd : Option ℕ
  phase : Phase

/-- `struct instance_t`, without a descriptor when it is `DISCONNECTED`. -/
structure InstanceNode where
  fd : Option ℕ
  inside : Option CriticalSection

/-- The descriptor that the next call uses. -/
def CriticalSection.descriptor (inside : CriticalSection) (fd : Option ℕ) : Option ℕ :=
  if inside.message.takesFd then inside.fd else fd

/-! ## Replies -/

/-- What a thread does after the fields that it has read. -/
inductive Demand
  | more (size : ℕ)
  | complete
  | wrong
  deriving DecidableEq

/-- The next `CHECK_RECV` after those that read these fields: in
`instance_recv_set_execution_status`, `instance_recv_store_execution_status`,
`instance_request_value` and `instance_test_connection`. -/
def demand : Instruction → List (List UInt8) → Demand
  | _, [] => .more 4
  | .set _ _ _, [opCode] =>
      if ofLittleEndian opCode = RequestInstancia.notifyStatus.code then .more 4 else .wrong
  | .set _ _ _, [_, _] => .more 8
  | .store _, [opCode] =>
      if ofLittleEndian opCode = RequestInstancia.notifyStore.code then .more 4 else .wrong
  | .requestValue _, [opCode] =>
      if ofLittleEndian opCode = RequestInstancia.retrieveValue.code then .more 4 else .wrong
  | .requestValue _, [_, status] =>
      -- `VALUE_STATUS_OK` and `VALUE_STATUS_REPLACED`
      if ofLittleEndian status = 1 then .more 8
      else if ofLittleEndian status = 0 then .complete else .wrong
  | .requestValue _, [_, _, size] =>
      if ofLittleEndian size ≤ 0 then .wrong else .more (ofLittleEndian size)
  | .isAlive, [opCode] =>
      if ofLittleEndian opCode = RequestInstancia.confirmConnection.code then .complete
      else .wrong
  | _, _ => .complete

/-- A reply that a thread has read to its end. -/
structure Reading where
  tag : ℕ
  instruction : Instruction
  bytes : List (UInt8 × ℕ)
  deriving DecidableEq

/-- What happens to a request inside an instance. The values that it holds were received. -/
inductive Outcome
  | set (status : StatusCi) (entriesUsed : ℕ)
  | store (isStored : Bool)
  | value (keyValue : Option { keyValue : KeyValue // Receivable keyValue.value })
  | other

/-- One turn of the loop of `instance_thread_api`: the reply, which is empty when there is
none, and whether the loop goes on. -/
def instanceThreadApi : ReceivedRequest → Outcome → Option (Chunk × Bool)
  | .set _ _, .set status entriesUsed =>
      some (coordinatorApiNotifySet entriesUsed (statusCode status),
        decide (status ∈ [StatusCi.ok, .compact, .replaced]))
  | .store _, .store isStored =>
      some (coordinatorApiNotifyStatus .notifyStore (if isStored then 1 else 0), true)
  | .requestValue _, .value none => some (coordinatorApiNotifyStatus .retrieveValue 0, true)
  | .requestValue _, .value (some keyValue) =>
      some (coordinatorApiNotifyKeyValue keyValue.val 1, true)
  | .isAlive, .other => some (coordinatorApiNotifyHeader .confirmConnection, true)
  | .compact, .other => some ([], true)
  | .kill, .other => some ([], false)
  | _, _ => none

/-! ## Threads -/

/-- Where a thread is. -/
inductive Place
  /-- The handler has confirmed the handshake; the scheduler waits for the next message. -/
  | start
  /-- `handle_instance_connection`, before the lock of the list. -/
  | named (name : CString)
  /-- `instance_test_connection`, before and inside the critical section. -/
  | testing (name : CString)
  /-- `instance_list_add`, before `instance->fd = fd`. -/
  | publishing (name : CString)
  /-- Before `instance_send_confirmation_error`. -/
  | refusing
  /-- After `instance_list_add`. -/
  | published (name : CString)
  /-- Inside the critical section of `instance_send_confirmation`. -/
  | configuring (name : CString)
  /-- Before `request_list_pop`. -/
  | popping (name : CString)
  /-- With a request, before and inside the critical section. -/
  | asking (name : CString) (request : Request)
  /-- `instance_request_value`, before and inside the critical section. -/
  | querying (name : CString) (key : { key : CString // key.length ≤ 40 })
  /-- At the beginning of `instance_send_compact`. -/
  | iterating (name : CString)
  /-- In `list_iterate`, with the nodes that are left. -/
  | broadcasting (name : CString) (nodes : List CString)
  /-- After the `switch`, with the error. -/
  | settling (name : CString) (error : Bool)
  /-- Before `close`. -/
  | closing (name : Option CString)
  | closed

/-- The critical section that a thread waits for. -/
def Place.wants (keyList : KeyList) : Place → Option (CString × Message)
  | .published name => some (name, .configuration keyList)
  | .testing name => some (name, .instruction issuedIsAlive)
  | .asking name request => some (name, .instruction request)
  | .querying name key => some (name, .instruction (issuedRequestValue key))
  | _ => none

/-- What a handler does after the answer to a SET. -/
def afterSet (name : CString) (result : Option (List (UInt8 × ℕ))) : Place :=
  match result.bind fun bytes => instanceRecvSetExecutionStatus (untagged bytes) with
  | none => .settling name true
  | some ((status, _), _) =>
      if status = 2 then .iterating name
      else .settling name !decide (status ∈ [(1 : ℤ), 0, -1, -2])

/-- What a handler does after the answer to a STORE. -/
def afterStore (name : CString) (result : Option (List (UInt8 × ℕ))) : Place :=
  match result.bind fun bytes => instanceRecvStoreExecutionStatus (untagged bytes) with
  | none => .settling name true
  | some (status, _) => .settling name !decide (status ∈ [(1 : ℤ), 0])

/-- Where a thread is after its critical section: `none` when a call has failed. -/
def Message.after (name : CString) (result : Option (List (UInt8 × ℕ))) : Message → Place
  | .configuration _ => if result.isSome then .popping name else .closing (some name)
  | .instruction ⟨.set _ _ _, _⟩ => afterSet name result
  | .instruction ⟨.store _, _⟩ => afterStore name result
  | .instruction ⟨.isAlive, _⟩ => if result.isSome then .refusing else .publishing name
  | .instruction ⟨.requestValue _, _⟩ | .instruction ⟨.compact, _⟩ => .start

/-- The coordinator and its connections. -/
structure Connections where
  /-- The nodes of `instance_list`. -/
  nodes : CString → Option InstanceNode
  /-- The connections of the descriptors that are open. -/
  descriptors : ℕ → Option ℕ
  /-- How many connections there were. -/
  accepted : ℕ
  /-- The `fd` of each handler. -/
  fdOf : ℕ → ℕ
  channel : ℕ → Channel ReceivedRequest
  /-- The coordinator has turned the instance away. -/
  isRefused : ℕ → Bool
  place : Thread → Place
  /-- The connection whose handler holds `instance_list->lock`. -/
  listLock : Option ℕ
  nextTag : ℕ
  readings : List Reading

/-- What happens next. -/
inductive LineEvent
  | accept (fd : ℕ)
  | leave (connection : ℕ)
  | receiveName (connection : ℕ) (name : Option CString)
  | add (connection : ℕ)
  | publish (connection : ℕ)
  | refuse (connection : ℕ) (fails : Bool)
  | lock (thread : Thread) (keyList : KeyList)
  | send (name : CString) (fails : Bool)
  | recv (name : CString)
  | pop (connection : ℕ) (request : Request)
  | iterate (connection : ℕ) (nodes : List CString)
  | compact (connection : ℕ) (fails : Bool)
  | settle (connection : ℕ)
  | close (connection : ℕ)
  | ask (name : CString) (key : { key : CString // key.length ≤ 40 })
  | readConfig (connection : ℕ)
  | serve (connection : ℕ) (outcome : Outcome) (sent : ℕ)
  | die (connection : ℕ)

/-- A handler closes its descriptor. -/
def LineEvent.isClose : LineEvent → Bool
  | .close _ => true
  | _ => false

namespace Connections

/-- The coordinator at its start. -/
def init : Connections :=
  ⟨fun _ => none, fun _ => none, 0, fun _ => 0, fun _ => .init, fun _ => false,
    fun _ => .start, none, 0, []⟩

variable (state : Connections)

/-- `instance->fd`. -/
abbrev fdAt (name : CString) : Option ℕ := (state.nodes name).bind InstanceNode.fd

/-- The thread that holds `instance->lock`. -/
abbrev insideAt (name : CString) : Option CriticalSection :=
  (state.nodes name).bind InstanceNode.inside

abbrev setNode (name : CString) (node : InstanceNode) : Connections :=
  { state with nodes := Function.update state.nodes name (some node) }

abbrev setPlace (thread : Thread) (place : Place) : Connections :=
  { state with place := Function.update state.place thread place }

abbrev setChannel (connection : ℕ) (channel : Channel ReceivedRequest) : Connections :=
  { state with channel := Function.update state.channel connection channel }

/-! ## Connecting -/

/-- `accept`, with a number that is free. -/
def accept (fd : ℕ) : Option Connections :=
  if (state.descriptors fd).isSome then none
  else some { state with
    descriptors := Function.update state.descriptors fd (some state.accepted)
    accepted := state.accepted + 1
    fdOf := Function.update state.fdOf state.accepted fd
    channel := Function.update state.channel state.accepted .init
    isRefused := Function.update state.isRefused state.accepted false }

/-- A process of another kind has left. -/
def leave (connection : ℕ) : Option Connections :=
  match state.place (.handler connection) with
  | .start =>
      if connection < state.accepted then
        some (state.setPlace (.handler connection) (.closing none))
      else none
  | _ => none

/-- `instance_recv_name`. -/
def instanceRecvName (connection : ℕ) (name : Option CString) : Option Connections :=
  match state.place (.handler connection) with
  | .start =>
      if connection < state.accepted then
        some (state.setPlace (.handler connection) (name.elim .refusing .named))
      else none
  | _ => none

/-- `instance_list_add`, up to the test of an old connection. The lock of the list is kept
while a descriptor may have to be replaced. -/
def instanceListAdd (connection : ℕ) : Option Connections :=
  match state.place (.handler connection), state.listLock with
  | .named name, none =>
      match state.nodes name with
      | none =>
          some ((state.setNode name ⟨some (state.fdOf connection), none⟩).setPlace
            (.handler connection) (.published name))
      | some node =>
          some ({ state with listLock := some connection }.setPlace (.handler connection)
            (if node.fd.isSome then .testing name else .publishing name))
  | _, _ => none

/-- The critical section `instance->fd = fd`. -/
def publish (connection : ℕ) : Option Connections :=
  match state.place (.handler connection) with
  | .publishing name =>
      match state.nodes name with
      | some ⟨_, none⟩ =>
          some (({ state with listLock := none }.setNode name
            ⟨some (state.fdOf connection), none⟩).setPlace (.handler connection)
              (.published name))
      | _ => none
  | _ => none

/-- `instance_send_confirmation_error`. -/
def refuse (connection : ℕ) (fails : Bool) : Option Connections :=
  match state.place (.handler connection) with
  | .refusing =>
      ((state.channel connection).trySend state.nextTag instanceSendConfirmationError fails).map
        fun sent =>
          ({ state with
            isRefused := Function.update state.isRefused connection true
            nextTag := state.nextTag + 1 }.setChannel connection sent.2).setPlace
              (.handler connection) (.closing none)
  | _ => none

/-! ## Critical sections -/

/-- `pthread_mutex_lock(&instance->lock)`. -/
def lock (setup : EntriesSetup) (thread : Thread) (keyList : KeyList) : Option Connections :=
  match (state.place thread).wants keyList with
  | none => none
  | some (name, message) =>
      match state.nodes name with
      | some ⟨fd, none⟩ =>
          some (({ state with nextTag := state.nextTag + 1 }.setNode name
            ⟨fd, some ⟨thread, state.nextTag, message, message.argument fd,
              .sending (message.blocks setup)⟩⟩).setPlace thread
                (match message with
                | .configuration _ => .configuring name
                | .instruction _ => state.place thread))
      | _ => none

/-- `pthread_mutex_unlock(&instance->lock)`. When an instance is alive under a name,
`instance_list_add` is over, and with it the lock of the list. -/
abbrev unlock (name : CString) (fd : Option ℕ) (inside : CriticalSection)
    (result : Option (List (UInt8 × ℕ))) : Connections :=
  { (state.setNode name ⟨fd, none⟩).setPlace inside.thread
      (inside.message.after name result) with
    listLock := if inside.message.isTest && result.isSome then none else state.listLock }

/-- What follows a block that was sent. -/
def afterSend (name : CString) (fd : Option ℕ) (inside : CriticalSection)
    (left : List (List UInt8)) : Connections :=
  match left, inside.message with
  | [], .configuration _ => state.unlock name fd inside (some [])
  | [], .instruction _ =>
      state.setNode name ⟨fd, some { inside with
        fd := inside.message.argument fd
        phase := .receiving [] }⟩
  | _ :: _, _ => state.setNode name ⟨fd, some { inside with phase := .sending left }⟩

/-- The next `send` of the thread inside. -/
def send (name : CString) (fails : Bool) : Option Connections :=
  match state.nodes name with
  | some ⟨fd, some inside⟩ =>
      match inside.phase with
      | .sending (block :: left) =>
          match (inside.descriptor fd).bind state.descriptors with
          | none => some (state.unlock name fd inside none)
          | some connection =>
              ((state.channel connection).trySend inside.tag block fails).map fun sent =>
                if sent.1 then
                  (state.setChannel connection sent.2).afterSend name fd inside left
                else (state.setChannel connection sent.2).unlock name fd inside none
      | _ => none
  | _ => none

/-- What follows a field that was read. -/
def afterRecv (name : CString) (fd : Option ℕ) (inside : CriticalSection)
    (instruction : Instruction) (chunks : List (List (UInt8 × ℕ))) : Connections :=
  match demand instruction (chunks.map untagged) with
  | .more _ => state.setNode name ⟨fd, some { inside with phase := .receiving chunks }⟩
  | .complete =>
      { state.unlock name fd inside (some chunks.flatten) with
        readings := state.readings ++ [⟨inside.tag, instruction, chunks.flatten⟩] }
  | .wrong => state.unlock name fd inside none

/-- The next `recv` of the thread inside. -/
def recv (name : CString) : Option Connections :=
  match state.nodes name with
  | some ⟨fd, some inside⟩ =>
      match inside.message, inside.phase with
      | .instruction instruction, .receiving chunks =>
          match demand instruction.val (chunks.map untagged) with
          | .more size =>
              match (inside.descriptor fd).bind state.descriptors with
              | none => some (state.unlock name fd inside none)
              | some connection =>
                  ((state.channel connection).tryTake size).map fun taken =>
                    match taken.1 with
                    | some chunk =>
                        (state.setChannel connection taken.2).afterRecv name fd inside
                          instruction.val (chunks ++ [chunk])
                    | none => (state.setChannel connection taken.2).unlock name fd inside none
          | _ => none
      | _, _ => none
  | _ => none

/-! ## Requests -/

/-- `request_list_pop`, and the comparison of the descriptors. A STORE of a key without a
value does not get here. -/
def pop (connection : ℕ) (request : Request) : Option Connections :=
  match state.place (.handler connection) with
  | .popping name =>
      some (state.setPlace (.handler connection)
        (if state.fdAt name = some (state.fdOf connection) then .asking name request
        else .closing (some name)))
  | _ => none

/-- `list_filter` in `instance_list_iterate`: nodes that are connected, in any order. -/
def iterate (connection : ℕ) (nodes : List CString) : Option Connections :=
  match state.place (.handler connection) with
  | .iterating name =>
      if nodes.all fun node => (state.fdAt node).isSome then
        some (state.setPlace (.handler connection) (.broadcasting name nodes))
      else none
  | _ => none

/-- `send_compact` for the next node: its one `send` is the whole critical section. -/
def sendCompact (connection : ℕ) (fails : Bool) : Option Connections :=
  match state.place (.handler connection) with
  | .broadcasting name [] => some (state.setPlace (.handler connection) (.settling name false))
  | .broadcasting name (node :: nodes) =>
      match state.nodes node with
      | some ⟨fd, none⟩ =>
          if node = name then
            some (state.setPlace (.handler connection) (.broadcasting name nodes))
          else
            match fd.bind state.descriptors with
            | none => some (state.setPlace (.handler connection) (.broadcasting name nodes))
            | some other =>
                ((state.channel other).trySend state.nextTag Instruction.compact.bytes fails).map
                  fun sent =>
                    ({ state with nextTag := state.nextTag + 1 }.setChannel other sent.2).setPlace
                      (.handler connection) (.broadcasting name nodes)
      | _ => none
  | _ => none

/-- The end of the loop of `handle_instance_connection`: a connection that has failed is
taken out of its node. -/
def settle (connection : ℕ) : Option Connections :=
  match state.place (.handler connection), state.listLock with
  | .settling name error, none =>
      match error, state.nodes name with
      | true, some ⟨fd, inside⟩ =>
          some ((state.setNode name
            ⟨if fd = some (state.fdOf connection) then none else fd, inside⟩).setPlace
              (.handler connection) (.closing (some name)))
      | true, none => none
      | false, _ => some (state.setPlace (.handler connection) (.popping name))
  | _, _ => none

/-- The `close` of `handle_connection`. -/
def close (connection : ℕ) : Option Connections :=
  match state.place (.handler connection) with
  | .closing _ =>
      some ({ state with
        descriptors := Function.update state.descriptors (state.fdOf connection) none }.setPlace
          (.handler connection) .closed)
  | _ => none

/-- `scheduler_send_key_status` for a key of an instance that is connected. -/
def ask (name : CString) (key : { key : CString // key.length ≤ 40 }) : Option Connections :=
  match state.place .scheduler, state.fdAt name with
  | .start, some _ => some (state.setPlace .scheduler (.querying name key))
  | _, _ => none

/-! ## Instances -/

/-- An instance reads its configuration. -/
def readConfig (connection : ℕ) : Option Connections :=
  ((state.channel connection).greet coordinatorApiHandshakeReceiveConfig).map
    (state.setChannel connection)

/-- An instance reads a request and answers it. -/
def serve (connection : ℕ) (outcome : Outcome) (sent : ℕ) : Option Connections :=
  ((state.channel connection).serve receiveRequest (instanceThreadApi · outcome) sent).map
    (state.setChannel connection)

/-- One step of the system. -/
def step (setup : EntriesSetup) : PartialStep Connections LineEvent := fun state event =>
  match event with
  | .accept fd => state.accept fd
  | .leave connection => state.leave connection
  | .receiveName connection name => state.instanceRecvName connection name
  | .add connection => state.instanceListAdd connection
  | .publish connection => state.publish connection
  | .refuse connection fails => state.refuse connection fails
  | .lock thread keyList => state.lock setup thread keyList
  | .send name fails => state.send name fails
  | .recv name => state.recv name
  | .pop connection request => state.pop connection request
  | .iterate connection nodes => state.iterate connection nodes
  | .compact connection fails => state.sendCompact connection fails
  | .settle connection => state.settle connection
  | .close connection => state.close connection
  | .ask name key => state.ask name key
  | .readConfig connection => state.readConfig connection
  | .serve connection outcome sent => state.serve connection outcome sent
  | .die connection => some (state.setChannel connection (state.channel connection).die)

/-! ## Conditions -/

/-- The connection of the node waits for its configuration. -/
def isPending (name : CString) : Bool :=
  match (state.fdAt name).bind state.descriptors with
  | none => false
  | some connection =>
      match state.place (.handler connection) with
      | .published _ => true
      | _ => false

/-- The node has the descriptor, or a thread inside was given it. -/
def Refers (name : CString) (fd : ℕ) : Prop :=
  state.fdAt name = some fd ∨ ∃ inside, state.insideAt name = some inside ∧ inside.fd = some fd

/-- A thread enters a critical section to ask something of an instance, or to tell it to
compact, only when the configuration was sent. -/
def waitsForConfiguration (state : Connections) : LineEvent → Bool
  | .lock thread _ =>
      match state.place thread with
      | .testing name | .asking name _ | .querying name _ => !state.isPending name
      | _ => true
  | .compact connection _ =>
      match state.place (.handler connection) with
      | .broadcasting name (node :: _) => decide (node = name) || !state.isPending node
      | _ => true
  | _ => true

/-- A handler closes a descriptor that no node has and no thread inside was given. -/
def ClosesUnused (state : Connections) : LineEvent → Prop
  | .close connection => ∀ name, ¬ state.Refers name (state.fdOf connection)
  | _ => True

end Connections

end SockMyPort.Sistema.Sockets
