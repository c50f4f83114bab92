/-
# The instance

`instance_set` and the other operations, the handling of a request by
`instance_thread_api`, and the runs of an instance. Sending an answer can fail,
which ends the instance; whether it does is part of the request.
-/

import SockMyPort.Instancia.Compactation
import SockMyPort.Library.Runs

namespace SockMyPort.Instancia

open SockMyPort.Commons Library

variable (config : Config)

/-! ## Operations -/

/-- The replacement step of `instance_set`. The flag is `false` when the
algorithm returned zero. -/
def instanceSetReplace (state : InstanceState) (keyValue : KeyValue)
    (replacedKeys : List CString) : InstanceState × List CString × Bool :=
  if !entryTableHasEntries config state keyValue then
    let executed := algorithmsExec config config.replacementAlgorithm state
      (List.range state.entryTableStatusGlobal.length) keyValue replacedKeys
    if executed.result = 0 then (executed.state, executed.replacedKeys, false)
    else
      let deleted := entryTableDeleteFew config executed.state executed.replacedKeys
      ({ deleted with
          dumper := executed.replacedKeys.foldl dumperRemoveKeyValue deleted.dumper },
        executed.replacedKeys, true)
  else (state, replacedKeys, true)

/-- The part of `instance_set` that follows the replacement step. -/
def instanceSetPlace (state : InstanceState) (keyValue : KeyValue) : InstanceState × StatusCi :=
  if !entryTableHasContinousEntries config state keyValue then
    if entryTableHasKey state.entryTable keyValue.key false then
      let deleted := entryTableDelete config state keyValue
      ({ deleted with
          entryTableStatusGlobal :=
            entryTableStatusDeleteKv config deleted.entryTableStatusGlobal keyValue }, .compact)
    else (state, .compact)
  else
    match entryTableNextEntry config state keyValue with
    | none => (state, .error)
    | some nextEntry =>
        match storageSet config state nextEntry (bytesOf keyValue.value) keyValue.size with
        | none => (state, .error)
        | some stored =>
            let inserted := entryTableInsert config stored nextEntry keyValue
            ({ inserted with
                entryTableStatusGlobal := entryTableStatusAddKv config
                  inserted.entryTableStatusGlobal keyValue nextEntry }, .ok)

/-- What a call of `instance_set` leaves behind. -/
structure SetResult where
  state : InstanceState
  replacedKeys : List CString
  status : StatusCi

/-- `instance_set`. -/
def instanceSet (state : InstanceState) (keyValue : KeyValue) (replacedKeys : List CString) :
    SetResult :=
  if !newValueFitsWithReplaced config state keyValue then
    { state := state, replacedKeys := replacedKeys, status := .noSpace }
  else
    match instanceSetReplace config state keyValue replacedKeys with
    | (replaced, keys, false) => { state := replaced, replacedKeys := keys, status := .error }
    | (replaced, keys, true) =>
        let (placed, status) := instanceSetPlace config replaced keyValue
        { state := placed, replacedKeys := keys, status := status }

/-- `instance_status`: `none` is `STATUS_REPLACED`. -/
def instanceStatus (state : InstanceState) (key : CString) : Option KeyValue :=
  (entryTableGetEntry state.entryTable key).map fun entry =>
    keyValueCreate key (storageRetrieveString config state entry.number entry.size)

/-- `instance_store`. -/
def instanceStore (state : InstanceState) (key : CString) : InstanceState × StatusCi :=
  match entryTableGetEntry state.entryTable key with
  | none => (state, .replaced)
  | some entry =>
      let data := storageRetrieve config state entry.number entry.size
      ({ state with dumper := dumperStore state.dumper key data }, .ok)

/-- `_dump`. -/
def dump (state : InstanceState) (key : CString) : InstanceState :=
  match entryTableGetEntry state.entryTable key with
  | none => state
  | some entry =>
      let data := storageRetrieve config state entry.number entry.size
      { state with dumper := dumperStore state.dumper key data }

/-- One turn of `instance_thread_dump`. -/
def instanceThreadDump (state : InstanceState) : InstanceState :=
  (entryTableGetKeyList state.entryTable).foldl (dump config) state

/-! ## Requests -/

/-- A SET request. The value is not empty, as the parser of the scripts
guarantees. -/
structure SetRequest where
  isNew : Bool
  key : CString
  value : CString
  value_ne : value ≠ []
  /-- Whether the answer can be sent. -/
  sendOk : Bool
  deriving DecidableEq

/-- The `key_value_t` that `coordinator_api_receive_set` builds. -/
abbrev SetRequest.keyValue (request : SetRequest) : KeyValue :=
  keyValueCreate request.key request.value

/-- A call of `instance_set`, as it returned. -/
structure SetCall where
  keyValue : KeyValue
  replacedKeys : List CString
  status : StatusCi
  deriving DecidableEq

/-- The handling of a SET request: the final state, the calls of `instance_set`
that were made, and the pair given to `coordinator_api_notify_set`. -/
structure SetHandling where
  state : InstanceState
  calls : List SetCall
  entriesUsed : ℤ
  notified : StatusCi

/-- The `PROTOCOL_CI_SET` case of `instance_thread_api`. A compaction is done,
and `instance_set` is called again, after the answer has been sent; the second
result is not sent. Every other failure ends the instance. -/
def instanceThreadApiSet (state : InstanceState) (request : SetRequest) : SetHandling :=
  let keyValue := request.keyValue
  if !(request.isNew || entryTableHasKey state.entryTable keyValue.key request.isNew) then
    { state := state
      calls := []
      entriesUsed := config.totalEntries - state.entriesLeft
      notified := .replaced }
  else
    let first := instanceSet config state keyValue []
    let call : SetCall := ⟨keyValue, first.replacedKeys, first.status⟩
    let entriesUsed : ℤ := config.totalEntries - first.state.entriesLeft +
      (if first.status = .compact then
        entryTableDiffEntries config first.state.entryTable keyValue else 0)
    if !request.sendOk then
      { state := { first.state with instanceIsAlive := false }
        calls := [call]
        entriesUsed := entriesUsed
        notified := first.status }
    else
      match first.status with
      | .ok =>
          { state := first.state, calls := [call], entriesUsed := entriesUsed, notified := .ok }
      | .compact =>
          let second := instanceSet config (compactationCompact config first.state) keyValue
            first.replacedKeys
          { state := second.state
            calls := [call, ⟨keyValue, second.replacedKeys, second.status⟩]
            entriesUsed := entriesUsed
            notified := .compact }
      | status =>
          { state := { first.state with instanceIsAlive := false }
            calls := [call]
            entriesUsed := entriesUsed
            notified := status }

/-- What an instance is asked to do. Besides the requests of the coordinator,
the dump thread takes a turn from time to time. -/
inductive Request
  | set (request : SetRequest)
  | store (key : CString) (sendOk : Bool)
  | compact
  | requestValue (key : CString) (sendOk : Bool)
  | isAlive
  | kill
  | dump
  deriving DecidableEq

/-- One request, with the calls of `instance_set` that it led to. Nothing is
handled once the instance is no longer alive. -/
def handleRequest (state : InstanceState) (request : Request) :
    Option (InstanceState × List SetCall) :=
  if !state.instanceIsAlive then none
  else
    match request with
    | .set request =>
        let handling := instanceThreadApiSet config state request
        some (handling.state, handling.calls)
    | .store key sendOk =>
        let (stored, _) := instanceStore config state key
        some ({ stored with instanceIsAlive := sendOk }, [])
    | .compact => some (compactationCompact config state, [])
    | .requestValue _ sendOk => some ({ state with instanceIsAlive := sendOk }, [])
    | .isAlive => some (state, [])
    | .kill => some ({ state with instanceIsAlive := false }, [])
    | .dump => some (instanceThreadDump config state, [])

/-- `instance_init` up to the recovery: empty tables and storage. -/
def instanceInit (mountPoint : CString) : InstanceState :=
  entryTableStatusInit config (entryTableInit config (storageInit config
    { entryTable := []
      entriesLeft := 0
      storage := []
      entryTableStatusGlobal := []
      algorithmCircularPointer := 0
      dumper := dumperInit mountPoint
      instanceIsAlive := true }))

/-- `instance_recover`, given the values that `dumper_recover` reads: `instance_set` of each,
with one list of replaced keys. What a call returns is not looked at. -/
def instanceRecover (state : InstanceState) (recoveredKeyValues : List KeyValue) : SetResult :=
  recoveredKeyValues.foldl
    (fun recovered keyValue => instanceSet config recovered.state keyValue recovered.replacedKeys)
    { state := state, replacedKeys := [], status := .ok }

/-- An instance together with every call of `instance_set` made so far. -/
structure TracedInstance where
  state : InstanceState
  calls : List SetCall
  deriving DecidableEq

/-- The step function of an instance. -/
def instanceStep : PartialStep TracedInstance Request := fun traced request =>
  (handleRequest config traced.state request).map fun (state, calls) =>
    { state := state, calls := traced.calls ++ calls }

/-- A freshly initialised instance. -/
def freshInstance (mountPoint : CString) : TracedInstance where
  state := instanceInit config mountPoint
  calls := []

/-- The states of an instance that some run reaches from the empty tables. -/
def InstanceReachable (mountPoint : CString) (state : InstanceState) : Prop :=
  ∃ calls, (instanceStep config).Reaches (fun _ _ => True) (freshInstance config mountPoint)
    { state := state, calls := calls }

variable {config} in
theorem InstanceReachable.of_run {mountPoint : CString} {events : List Request}
    {finish : TracedInstance}
    (hrun : (instanceStep config).FreeRuns (freshInstance config mountPoint) events finish) :
    InstanceReachable config mountPoint finish.state :=
  ⟨finish.calls, events, hrun⟩

/-- The value `x` can be set. -/
theorem literal_x_ne : literal [120] ≠ [] := by decide

/-- A small instance: three entries of one byte, replaced circularly. -/
def threeEntries : Config where
  setup := ⟨3, 1, by decide, by decide, by decide⟩
  replacementAlgorithm := .circular
  sort := insertionListSort

end SockMyPort.Instancia
