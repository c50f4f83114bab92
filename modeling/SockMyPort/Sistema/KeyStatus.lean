/-
# The status of a key

The console asks the coordinator, which looks into its tables and asks the instance.
`scheduler_send_key_status` writes a state and the fields that belong to it, and
`receive_and_print_key_status` reads them. An instance that has replaced the key answers
successfully with `NULL`, which is then measured as a string.
-/

import SockMyPort.Coordinador.Tables
import SockMyPort.Instancia.StoreMap
import SockMyPort.Sistema.WireAgreement

namespace SockMyPort.Sistema

open SockMyPort.Commons SockMyPort.Protocolo SockMyPort.Libs SockMyPort.Coordinador
  SockMyPort.Instancia Library

/-! ## The instance -/

variable (config : Instancia.Config)

/-- The `PROTOCOL_CI_REQUEST_VALUE` case of `instance_thread_api`. -/
def instanceThreadApiRequestValue (state : InstanceState) (requestedKey : CString) : Chunk :=
  match instanceStatus config state requestedKey with
  | none => coordinatorApiNotifyStatus .retrieveValue (statusCode .replaced)
  | some keyValue => coordinatorApiNotifyKeyValue keyValue (statusCode .ok)

/-! ## The coordinator -/

/-- `instance_request_value`. There is no peer when something cannot be sent or received.
The result is missing when the function fails, and otherwise a value or `NULL`. -/
def instanceRequestValue (peer : Option InstanceState) (key : CString) :
    Option (Option CString) :=
  match peer with
  | none => none
  | some state =>
      match receiveRequest (Instruction.requestValue key).bytes with
      | some (.requestValue requestedKey, _) =>
          (instanceRecvValue (instanceThreadApiRequestValue config state requestedKey)).map
            Prod.fst
      | _ => none

/-- `send_key_value`, which measures the value first. -/
def sendKeyValue : Option CString → Option (List UInt8)
  | none => none
  | some value => some (sizedString value)

/-- What `scheduler_send_key_status` sends, unless the program dies. -/
def schedulerSendKeyStatus (tables : Tables) (peers : InstanceRef → Option InstanceState)
    (key : CString) : Option (List UInt8) :=
  let opCode := enumBytes ProtocolId.cpKeyStatus.code
  if keyTableIsNew tables key then
    -- `KEY_UNINITIALIZED`
    some (opCode ++ intBytes 0)
  else
    match keyTableGetInstance tables key with
    -- `KEY_NOT_EXIST`
    | none => some (opCode ++ intBytes (-1))
    | some node =>
        let name := sizedString (tables.nodes node).name
        let requested := if instanceIsConnected tables node then
          instanceRequestValue config (peers node) key else none
        match requested with
        -- `KEY_INITIALIZED`
        | some value =>
            (sendKeyValue value).map fun sent => opCode ++ (intBytes 1 ++ (name ++ sent))
        -- `KEY_INSTANCE_DISCONNECTED`
        | none => some (opCode ++ (intBytes (-2) ++ name))

/-! ## The scheduler -/

/-- What is printed. -/
inductive KeyStatus
  | instanceDisconnected (instanceName : CString)
  | notExist
  | uninitialized
  | initialized (instanceName keyValue : CString)
  deriving DecidableEq

/-- `recv_package_variable` of a string. -/
def recvPackageVariable : Receiver CString := do
  let packageSize ← recvSize
  recvString packageSize

/-- `receive_and_print_key_status`; nothing is printed for another state. -/
def receiveAndPrintKeyStatus : Receiver (Option KeyStatus) := do
  let keyState ← recvInt
  if keyState = -2 then
    let instanceName ← recvPackageVariable
    pure (some (.instanceDisconnected instanceName))
  else if keyState = -1 then pure (some .notExist)
  else if keyState = 0 then pure (some .uninitialized)
  else if keyState = 1 then
    let instanceName ← recvPackageVariable
    let keyValue ← recvPackageVariable
    pure (some (.initialized instanceName keyValue))
  else pure none

/-- The main loop reads the code of the operation first. -/
def receiveKeyStatusAnswer : Receiver (Option KeyStatus) := do
  let opcode ← recvEnum
  if opcode = ProtocolId.cpKeyStatus.code then receiveAndPrintKeyStatus else failure

/-! ## Agreement -/

/-- The coordinator survives, and the scheduler reads exactly what it sends. -/
def AnswerAgrees (tables : Tables) (peers : InstanceRef → Option InstanceState)
    (key : CString) : Prop :=
  ∃ message status, schedulerSendKeyStatus config tables peers key = some message ∧
    Reads receiveKeyStatusAnswer message (some status)

/-- The key is initialized on a connected instance that has replaced it. -/
def ReplacedUnnoticed (tables : Tables) (peers : InstanceRef → Option InstanceState)
    (key : CString) : Prop :=
  ∃ node state, keyTableGet tables key = some ⟨true, some node⟩ ∧
    instanceIsConnected tables node = true ∧ peers node = some state ∧
      instanceStatus config state key = none

/-- The tables hold keys that were accepted. The names of the instances and the values that
they hold were received, each by one call of `recv`. -/
structure QueryState (tables : Tables) (peers : InstanceRef → Option InstanceState)
    (key : CString) : Prop where
  keySize : ∀ data ∈ keyTableGet tables key, key.length ≤ 40
  names : ∀ node, Receivable (tables.nodes node).name
  values : ∀ node state keyValue, peers node = some state →
    instanceStatus config state key = some keyValue → Receivable keyValue.value

variable {config} {tables : Tables} {peers : InstanceRef → Option InstanceState}
  {key : CString} {node : InstanceRef}

theorem reads_recvPackageVariable {string : CString} (hreceivable : Receivable string) :
    Reads recvPackageVariable (sizedString string) string := by
  refine (reads_recvSize hreceivable.inMemory.size_lt).bind ?_
  rw [length_stringBytes]
  exact reads_recvString hreceivable

/-- What the coordinator gets from an instance that it can reach. -/
theorem instanceRequestValue_some {state : InstanceState} (hkey : key.length ≤ 40)
    (hvalue : ∀ keyValue, instanceStatus config state key = some keyValue →
      Receivable keyValue.value) :
    instanceRequestValue config (some state) key =
      some ((instanceStatus config state key).map KeyValue.value) := by
  have hissued : Issued (.requestValue key) := by
    refine ⟨fun other hother => ?_, fun isNew other value hsame => by cases hsame⟩
    cases hother
    exact hkey
  have hrequest := reads_receiveRequest hissued (fun _ _ _ hsame => by cases hsame) []
  rw [List.append_nil] at hrequest
  rw [instanceRequestValue, hrequest]
  simp only [received, instanceThreadApiRequestValue]
  cases hstatus : instanceStatus config state key with
  | none =>
      have hreply := reads_notifyReplaced []
      rw [List.append_nil] at hreply
      simp only [statusCode, hreply]
      rfl
  | some keyValue =>
      have hreply := reads_notifyKeyValue (hvalue keyValue hstatus) []
      rw [List.append_nil] at hreply
      simp only [statusCode, hreply]
      rfl

theorem reads_receiveKeyStatusAnswer {fields : List UInt8} {status : Option KeyStatus}
    (hreads : Reads receiveAndPrintKeyStatus fields status) :
    Reads receiveKeyStatusAnswer (enumBytes ProtocolId.cpKeyStatus.code ++ fields) status := by
  refine (reads_recvEnum (by decide)).bind ?_
  rw [if_pos rfl]
  exact hreads

theorem reads_notExist : Reads receiveAndPrintKeyStatus (intBytes (-1)) (some .notExist) := by
  refine (reads_recvInt (by decide)).bind_last ?_
  rw [if_neg (by decide), if_pos rfl]
  exact reads_pure _

theorem reads_uninitialized :
    Reads receiveAndPrintKeyStatus (intBytes 0) (some .uninitialized) := by
  refine (reads_recvInt (by decide)).bind_last ?_
  rw [if_neg (by decide), if_neg (by decide), if_pos rfl]
  exact reads_pure _

theorem reads_instanceDisconnected {name : CString} (hname : Receivable name) :
    Reads receiveAndPrintKeyStatus (intBytes (-2) ++ sizedString name)
      (some (.instanceDisconnected name)) := by
  refine (reads_recvInt (by decide)).bind ?_
  rw [if_pos rfl]
  exact (reads_recvPackageVariable hname).bind_pure _

theorem reads_initialized {name value : CString} (hname : Receivable name)
    (hvalue : Receivable value) :
    Reads receiveAndPrintKeyStatus (intBytes 1 ++ (sizedString name ++ sizedString value))
      (some (.initialized name value)) := by
  refine (reads_recvInt (by decide)).bind ?_
  rw [if_neg (by decide), if_neg (by decide), if_neg (by decide), if_pos rfl]
  exact (reads_recvPackageVariable hname).bind
    ((reads_recvPackageVariable hvalue).bind_pure _)

/-- An answer that is sent and read. -/
theorem AnswerAgrees.of_fields {fields : List UInt8} {status : KeyStatus}
    (hsend : schedulerSendKeyStatus config tables peers key =
      some (enumBytes ProtocolId.cpKeyStatus.code ++ fields))
    (hreads : Reads receiveAndPrintKeyStatus fields (some status)) :
    AnswerAgrees config tables peers key :=
  ⟨_, status, hsend, reads_receiveKeyStatusAnswer hreads⟩

/-- The answer about a key that is initialized and assigned to an instance. -/
theorem answerAgrees_iff_of_assigned (hquery : QueryState config tables peers key)
    (hget : keyTableGet tables key = some ⟨true, some node⟩) :
    AnswerAgrees config tables peers key ↔ ¬ ReplacedUnnoticed config tables peers key := by
  have hkey := hquery.keySize _ hget
  have hnew : keyTableIsNew tables key = false := by simp [keyTableIsNew, hget]
  have hassigned : keyTableGetInstance tables key = some node := by
    simp [keyTableGetInstance, hget]
  have hreplaced : ReplacedUnnoticed config tables peers key ↔ ∃ state,
      instanceIsConnected tables node = true ∧ peers node = some state ∧
        instanceStatus config state key = none := by
    constructor
    · rintro ⟨other, state, hother, hrest⟩
      rw [hget] at hother
      cases hother
      exact ⟨state, hrest⟩
    · rintro ⟨state, hrest⟩
      exact ⟨node, state, hget, hrest⟩
  have hdisconnected : (if instanceIsConnected tables node then
      instanceRequestValue config (peers node) key else none) = none →
      AnswerAgrees config tables peers key := by
    intro hnone
    apply AnswerAgrees.of_fields ?_ (reads_instanceDisconnected (hquery.names node))
    simp only [schedulerSendKeyStatus, hnew, hassigned, hnone]
    rfl
  rw [hreplaced]
  cases hconnected : instanceIsConnected tables node with
  | false =>
      rw [hconnected] at hdisconnected
      exact iff_of_true (hdisconnected rfl) (by simp)
  | true =>
      rw [hconnected] at hdisconnected
      cases hpeer : peers node with
      | none =>
          rw [hpeer] at hdisconnected
          exact iff_of_true (hdisconnected rfl) (by simp)
      | some state =>
          have hrequest := instanceRequestValue_some hkey (hquery.values node state · hpeer)
          cases hstatus : instanceStatus config state key with
          | none =>
              refine iff_of_false ?_ (by simp [hstatus])
              rintro ⟨message, status, hsend, -⟩
              simp [schedulerSendKeyStatus, hnew, hassigned, hconnected, hpeer, hrequest,
                hstatus, sendKeyValue] at hsend
          | some keyValue =>
              refine iff_of_true ?_ (by simp [hstatus])
              apply AnswerAgrees.of_fields ?_ (reads_initialized (hquery.names node)
                (hquery.values node state keyValue hpeer hstatus))
              simp [schedulerSendKeyStatus, hnew, hassigned, hconnected, hpeer, hrequest,
                hstatus, sendKeyValue]

/-- **The scheduler reads exactly the answer** of the coordinator, unless the key is
initialized on a connected instance that has replaced it. -/
theorem answerAgrees_iff (hquery : QueryState config tables peers key) :
    AnswerAgrees config tables peers key ↔ ¬ ReplacedUnnoticed config tables peers key := by
  have hnot : (∀ node, keyTableGet tables key ≠ some ⟨true, some node⟩) →
      ¬ ReplacedUnnoticed config tables peers key := by
    rintro hother ⟨node, state, hget, -⟩
    exact hother node hget
  cases hget : keyTableGet tables key with
  | none =>
      refine iff_of_true ?_ (hnot (by simp [hget]))
      apply AnswerAgrees.of_fields ?_ reads_notExist
      simp [schedulerSendKeyStatus, keyTableIsNew, keyTableGetInstance, hget]
  | some data =>
      obtain ⟨initialized, assigned⟩ := data
      cases initialized with
      | false =>
          refine iff_of_true ?_ (hnot (by simp [hget]))
          apply AnswerAgrees.of_fields ?_ reads_uninitialized
          simp [schedulerSendKeyStatus, keyTableIsNew, hget]
      | true =>
          cases assigned with
          | none =>
              refine iff_of_true ?_ (hnot (by simp [hget]))
              apply AnswerAgrees.of_fields ?_ reads_notExist
              simp [schedulerSendKeyStatus, keyTableIsNew, keyTableGetInstance, hget]
          | some node => exact answerAgrees_iff_of_assigned hquery hget

/-- Four keys were set on the only instance. -/
def fourKeys : Tables where
  nodes _ := ⟨literal [105], 5, 3⟩
  instanceList := [0]
  keyTable key :=
    if key ∈ [literal [107], literal [97], literal [98], literal [99]] then some ⟨true, some 0⟩
    else none

theorem queryState_fourKeys {state : InstanceState} {key : CString} (hkey : key.length ≤ 40)
    (hvalue : ∀ keyValue, instanceStatus config state key = some keyValue →
      Receivable keyValue.value) :
    QueryState config fourKeys (fun _ => some state) key where
  keySize _ _ := hkey
  names _ := show Receivable (literal [105]) by decide
  values node other keyValue hpeer hstatus := by
    cases hpeer
    exact hvalue keyValue hstatus

/-- The last key is still there, and its status is read. -/
theorem answerAgrees_iff_stored :
    ∃ finish, (instanceStep threeEntries).FreeRuns (freshInstance threeEntries [])
      [.set ⟨true, literal [99], literal [120], by decide, true⟩] finish ∧
      AnswerAgrees threeEntries fourKeys (fun _ => some finish.state) (literal [99]) := by
  obtain ⟨finish, hrun, hcheck⟩ := PartialStep.exists_run_of_execute
    (instanceStep threeEntries) (freshInstance threeEntries [])
    ([.set ⟨true, literal [99], literal [120], by decide, true⟩])
    (fun traced => decide (instanceStatus threeEntries traced.state (literal [99]) =
      some (keyValueCreate (literal [99]) (literal [120])))) (by decide)
  have hstatus := of_decide_eq_true hcheck
  refine ⟨finish, hrun, (answerAgrees_iff (queryState_fourKeys (by decide) ?_)).mpr ?_⟩
  · intro keyValue hsame
    rw [hstatus] at hsame
    cases hsame
    decide
  · rintro ⟨node, state, -, -, hpeer, hnone⟩
    cases hpeer
    rw [hstatus] at hnone
    cases hnone

/-- With room for three keys, a fourth one replaces the first one without the coordinator
knowing. -/
theorem not_answerAgrees :
    ¬ ∀ (config : Instancia.Config) (mountPoint : CString) (tables : Tables)
      (peers : InstanceRef → Option InstanceState) (key : CString),
      (∀ node state, peers node = some state → InstanceReachable config mountPoint state) →
      QueryState config tables peers key → AnswerAgrees config tables peers key := by
  intro hclaim
  obtain ⟨finish, hrun, hcheck⟩ := PartialStep.exists_run_of_execute
    (instanceStep threeEntries) (freshInstance threeEntries [])
    ([.set ⟨true, literal [107], literal [120], by decide, true⟩,
      .set ⟨true, literal [97], literal [120], by decide, true⟩,
      .set ⟨true, literal [98], literal [120], by decide, true⟩,
      .set ⟨true, literal [99], literal [120], by decide, true⟩])
    (fun traced => decide (instanceStatus threeEntries traced.state (literal [107]) = none))
    (by decide)
  have hstatus := of_decide_eq_true hcheck
  have hquery : QueryState threeEntries fourKeys (fun _ => some finish.state) (literal [107]) := by
    refine queryState_fourKeys (by decide) fun keyValue hsame => ?_
    rw [hstatus] at hsame
    cases hsame
  have hget : keyTableGet fourKeys (literal [107]) = some ⟨true, some 0⟩ := by decide
  have hagrees := hclaim threeEntries [] fourKeys (fun _ => some finish.state) (literal [107])
    (fun node state hpeer => by cases hpeer; exact InstanceReachable.of_run hrun) hquery
  exact (answerAgrees_iff_of_assigned hquery hget).mp hagrees
    ⟨0, finish.state, hget, by decide, rfl, hstatus⟩

end SockMyPort.Sistema
