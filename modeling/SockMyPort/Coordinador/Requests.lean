/-
# A request and the instances that it visits

The handlers of SET and STORE in `instance-connection.c`. A SET that an instance cannot
do is queued on another one, and the list of excluded instances grows; it is followed
here from its first dispatch to the reply. Between two visits other threads may change
the connections, the order of the list and the entries of other keys.
-/

import SockMyPort.Coordinador.Distribution
import SockMyPort.Library.Runs

namespace SockMyPort.Coordinador

open SockMyPort.Commons Library

variable {setup : Setup}

/-! ## Handlers -/

/-- `enum request_type_t` with its operands. -/
inductive RequestType
  | set (value : CString)
  | store
  deriving DecidableEq

/-- `struct request_node_t`. -/
structure RequestNode where
  requestingEsiFd : ℤ
  type : RequestType
  key : CString
  excludedInstances : List InstanceRef
  deriving DecidableEq

/-- What happens when an instance is asked. The used entries come with a SET only. -/
inductive Outcome
  | sendFailure
  | recvFailure
  | status (code : ℤ) (usedEntries : ℕ)
  deriving DecidableEq

/-- The replies of the coordinator to a SET or a STORE. -/
inductive Reply
  | everythingOk
  | illegalOperation
  deriving DecidableEq

/-- What a handler does that others notice. -/
inductive Effect
  /-- The instruction is sent to an instance. -/
  | instruction (node : InstanceRef)
  /-- `scheduler_unblock_key`. -/
  | unblocked (key : CString)
  | replied (esiFd : ℤ) (reply : Reply)
  /-- `request_node_destroy`. -/
  | destroyed
  deriving DecidableEq

/-- What a handler leaves: the tables, where the node is queued unless it was destroyed,
what was done, and the result of the handler. -/
structure Handled where
  tables : Tables
  queued : Option (InstanceRef × RequestNode)
  effects : List Effect
  success : Bool

/-- A reply, and the end of the node. -/
def answer (tables : Tables) (request : RequestNode) (reply : Reply) (success : Bool) :
    Handled where
  tables := tables
  queued := none
  effects := [.replied request.requestingEsiFd reply, .destroyed]
  success := success

/-- `instance_dispatch_failed_set`. -/
def instanceDispatchFailedSet (setup : Setup) (tables : Tables) (failedInstance : InstanceRef)
    (request : RequestNode) (success : Bool) : Handled :=
  let excluding := { request with
    excludedInstances := request.excludedInstances ++ [failedInstance] }
  match dispatch setup tables excluding.key excluding.excludedInstances with
  | (none, dispatched) => answer dispatched excluding .illegalOperation success
  | (some node, dispatched) => ⟨dispatched, some (node, excluding), [], success⟩

/-- `instance->used_entries = used_entries`. -/
def setUsedEntries (tables : Tables) (node : InstanceRef) (usedEntries : ℕ) : Tables :=
  { tables with
    nodes := Function.update tables.nodes node
      { tables.nodes node with usedEntries := usedEntries } }

/-- `instance_handle_set_request` after the instruction. The compaction of the other
instances changes nothing here. -/
def instanceHandleSetRequest (setup : Setup) (tables : Tables) (node : InstanceRef)
    (request : RequestNode) : Outcome → Handled
  | .sendFailure | .recvFailure =>
      instanceDispatchFailedSet setup (keyTableRemove tables request.key) node request false
  | .status code usedEntries =>
      let counted := setUsedEntries tables node usedEntries
      -- `SET_STATUS_OK` and `SET_STATUS_COMPACT`
      if code = 1 ∨ code = 2 then
        answer (keyTableSetInitialized counted request.key) request .everythingOk true
      -- `SET_STATUS_REPLACED`
      else if code = 0 then
        answer (keyTableRemove counted request.key) request .illegalOperation true
      -- `SET_STATUS_NO_SPACE`, `SET_STATUS_ERROR`, and codes that do not exist
      else
        instanceDispatchFailedSet setup (keyTableRemove counted request.key) node request
          (code = -1 ∨ code = -2)

/-- `instance_handle_store_request` after the instruction. -/
def instanceHandleStoreRequest (tables : Tables) (request : RequestNode) : Outcome → Handled
  | .sendFailure | .recvFailure =>
      answer (keyTableRemove tables request.key) request .illegalOperation false
  | .status code _ =>
      -- `STORE_STATUS_OK`
      if code = 1 then
        let answered := answer tables request .everythingOk true
        { answered with effects := .unblocked request.key :: answered.effects }
      -- `STORE_STATUS_REPLACED`, and codes that do not exist
      else answer (keyTableRemove tables request.key) request .illegalOperation (code = 0)

/-- The `switch` of `handle_instance_connection`. A STORE of a key that was never set is
not sent to the instance. -/
def handleRequest (setup : Setup) (tables : Tables) (node : InstanceRef) (request : RequestNode)
    (outcome : Outcome) : Handled :=
  match request.type with
  | .set _ =>
      let handled := instanceHandleSetRequest setup tables node request outcome
      { handled with effects := .instruction node :: handled.effects }
  | .store =>
      if keyTableIsNew tables request.key then
        answer (keyTableRemove tables request.key) request .illegalOperation true
      else
        let handled := instanceHandleStoreRequest tables request outcome
        { handled with effects := .instruction node :: handled.effects }

/-! ## The way of a request -/

/-- A request on its way. -/
structure Travel where
  tables : Tables
  queued : Option (InstanceRef × RequestNode)
  effects : List Effect

/-- What can happen. -/
inductive TravelEvent
  /-- The thread of the instance takes the request; afterwards the instance may have
  reconnected already. -/
  | handle (outcome : Outcome) (reconnected : Bool)
  /-- Other threads go on. -/
  | others (tables : Tables)

/-- One turn of the loop of `handle_instance_connection`, or other threads. -/
def travelStep (setup : Setup) : PartialStep Travel TravelEvent := fun travel event =>
  match event with
  | .handle outcome reconnected =>
      travel.queued.map fun (node, request) =>
        let handled := handleRequest setup travel.tables node request outcome
        { tables :=
            if handled.success || reconnected then handled.tables
            else instanceListRemove handled.tables (handled.tables.nodes node).name
          queued := handled.queued
          effects := travel.effects ++ handled.effects }
  | .others tables => some { travel with tables := tables }

/-- The end of `handle_esi_operation` for a SET or a STORE. -/
def queueRequest (setup : Setup) (tables : Tables) (esiFd : ℤ) (type : RequestType)
    (key : CString) : Option Travel :=
  match dispatch setup tables key [] with
  | (none, _) => none
  | (some node, dispatched) => some ⟨dispatched, some (node, ⟨esiFd, type, key, []⟩), []⟩

/-- Other threads neither touch the entry of the key nor create instances. -/
def LeavesKey (key : CString) (travel : Travel) : TravelEvent → Prop
  | .handle _ _ => True
  | .others tables => keyTableGet tables key = keyTableGet travel.tables key ∧
      tables.instanceList.Perm travel.tables.instanceList

end SockMyPort.Coordinador
