/-
# The messages to the scheduler

The threads of the coordinator write on the socket of the scheduler without a lock, each
field of a message with a `send` of its own. The thread that reads from the scheduler
answers the queries of the console; the threads of ESIs and instances send requests. The
semaphores order what is read, so that no message is begun later because of them.

The scheduler reads the code of an operation in its main loop, and the fields that belong
to it.
-/

import SockMyPort.Library.Interleaving
import SockMyPort.Sistema.KeyStatus

namespace SockMyPort.Sistema

open SockMyPort.Commons SockMyPort.Protocolo SockMyPort.Coordinador SockMyPort.Instancia Library

/-! ## Messages -/

/-- What the coordinator sends to the scheduler. -/
inductive SchedulerMessage
  | isThisKeyBlocked (key : CString)
  | isKeyBlockedByExecutingEsi
  | blockKey
  | unlockKey (key : CString)
  | keyStatus (status : KeyStatus)
  deriving DecidableEq

/-- What `scheduler_send_key_status` sends after the code, by the state. -/
def keyStatusBlocks : KeyStatus → List (List UInt8)
  | .instanceDisconnected instanceName =>
      [intBytes (-2), sizeBytes (stringBytes instanceName).length, stringBytes instanceName]
  | .notExist => [intBytes (-1)]
  | .uninitialized => [intBytes 0]
  | .initialized instanceName keyValue =>
      [intBytes 1, sizeBytes (stringBytes instanceName).length, stringBytes instanceName,
        sizeBytes (stringBytes keyValue).length, stringBytes keyValue]

namespace SchedulerMessage

/-- The blocks of a message, one for each `send`. -/
def blocks : SchedulerMessage → List (List UInt8)
  -- the first question of `scheduler_recv_key_state`
  | .isThisKeyBlocked key =>
      [enumBytes ProtocolId.cpIsThisKeyBlocked.code, sizeBytes (stringBytes key).length,
        stringBytes key]
  -- its second question, whose code is an `int`
  | .isKeyBlockedByExecutingEsi => [intBytes ProtocolId.cpIsKeyBlockedByExecutingEsi.code]
  -- `scheduler_block_key`
  | .blockKey => [enumBytes ProtocolId.cpBlockKey.code]
  -- `scheduler_unblock_key`
  | .unlockKey key =>
      [enumBytes ProtocolId.cpUnlockKey.code, sizeBytes (stringBytes key).length, stringBytes key]
  -- `scheduler_send_key_status`
  | .keyStatus status => enumBytes ProtocolId.cpKeyStatus.code :: keyStatusBlocks status

/-- The strings of a message. -/
def strings : SchedulerMessage → List CString
  | .isThisKeyBlocked key | .unlockKey key => [key]
  | .isKeyBlockedByExecutingEsi | .blockKey | .keyStatus .notExist | .keyStatus .uninitialized => []
  | .keyStatus (.instanceDisconnected instanceName) => [instanceName]
  | .keyStatus (.initialized instanceName keyValue) => [instanceName, keyValue]

end SchedulerMessage

/-- A message whose strings the coordinator has received itself, from an ESI, from an
instance or from the scheduler. -/
abbrev StoredMessage :=
  { message : SchedulerMessage // ∀ string ∈ message.strings, Receivable string }

/-- The blocks of a message that is sent. -/
def sentBlocks (message : StoredMessage) : List (List UInt8) := message.val.blocks

/-! ## The scheduler -/

/-- One turn of the branch of the coordinator in `main`. A code without a case is passed
over, and so is a state without a case. -/
def receiveCoordinatorMessage : Receiver (Option SchedulerMessage) := do
  let opcode ← recvEnum
  if opcode = ProtocolId.cpIsThisKeyBlocked.code then
    let key ← recvPackageVariable
    pure (some (.isThisKeyBlocked key))
  else if opcode = ProtocolId.cpIsKeyBlockedByExecutingEsi.code then
    pure (some .isKeyBlockedByExecutingEsi)
  else if opcode = ProtocolId.cpBlockKey.code then pure (some .blockKey)
  else if opcode = ProtocolId.cpUnlockKey.code then
    let key ← recvPackageVariable
    pure (some (.unlockKey key))
  else if opcode = ProtocolId.cpKeyStatus.code then
    let status ← receiveAndPrintKeyStatus
    pure (status.map SchedulerMessage.keyStatus)
  else pure none

/-- The scheduler decodes exactly the messages that were sent, from a stream that is a
sequence of whole messages as soon as the last one is finished. -/
def ReadsMessages (line : Line StoredMessage UInt8) : Prop :=
  line.Whole sentBlocks ∧
    receiveAll receiveCoordinatorMessage (line.stream ++ line.unfinished) =
      (line.begun.map fun message => some message.val, [])

/-! ## Reading a message -/

/-- The size of a string and the string are two blocks. -/
theorem flatten_sizedString (string : CString) (blocks : List (List UInt8)) :
    (sizeBytes (stringBytes string).length :: stringBytes string :: blocks).flatten =
      sizedString string ++ blocks.flatten := by
  rw [List.flatten_cons, List.flatten_cons, sizedString, List.append_assoc]

theorem reads_keyStatusBlocks {status : KeyStatus}
    (hreceivable : ∀ string ∈ (SchedulerMessage.keyStatus status).strings, Receivable string) :
    Reads receiveAndPrintKeyStatus (keyStatusBlocks status).flatten (some status) := by
  cases status with
  | notExist =>
      rw [keyStatusBlocks, List.flatten_singleton]
      exact reads_notExist
  | uninitialized =>
      rw [keyStatusBlocks, List.flatten_singleton]
      exact reads_uninitialized
  | instanceDisconnected instanceName =>
      rw [keyStatusBlocks, List.flatten_cons, flatten_sizedString, List.flatten_nil,
        List.append_nil]
      exact reads_instanceDisconnected (hreceivable instanceName (List.mem_singleton_self _))
  | initialized instanceName keyValue =>
      rw [keyStatusBlocks, List.flatten_cons, flatten_sizedString, flatten_sizedString,
        List.flatten_nil, List.append_nil]
      exact reads_initialized (hreceivable instanceName List.mem_cons_self)
        (hreceivable keyValue (List.mem_cons_of_mem _ (List.mem_singleton_self _)))

theorem reads_coordinatorMessage (message : StoredMessage) :
    Reads receiveCoordinatorMessage (sentBlocks message).flatten (some message.val) := by
  obtain ⟨message, hreceivable⟩ := message
  cases message with
  | isThisKeyBlocked key =>
      have hkey := reads_recvPackageVariable (hreceivable key (List.mem_singleton_self _))
      rw [sentBlocks, SchedulerMessage.blocks, List.flatten_cons, flatten_sizedString,
        List.flatten_nil, List.append_nil]
      refine (reads_recvEnum (ProtocolId.code_lt _)).bind ?_
      rw [if_pos rfl]
      exact hkey.bind_pure fun read => some (SchedulerMessage.isThisKeyBlocked read)
  | isKeyBlockedByExecutingEsi =>
      rw [sentBlocks, SchedulerMessage.blocks, List.flatten_singleton]
      refine (reads_recvEnum (ProtocolId.code_lt .cpIsKeyBlockedByExecutingEsi)).bind_last ?_
      rw [if_neg (by decide), if_pos rfl]
      exact reads_pure _
  | blockKey =>
      rw [sentBlocks, SchedulerMessage.blocks, List.flatten_singleton]
      refine (reads_recvEnum (ProtocolId.code_lt _)).bind_last ?_
      rw [if_neg (by decide), if_neg (by decide), if_pos rfl]
      exact reads_pure _
  | unlockKey key =>
      have hkey := reads_recvPackageVariable (hreceivable key (List.mem_singleton_self _))
      rw [sentBlocks, SchedulerMessage.blocks, List.flatten_cons, flatten_sizedString,
        List.flatten_nil, List.append_nil]
      refine (reads_recvEnum (ProtocolId.code_lt _)).bind ?_
      rw [if_neg (by decide), if_neg (by decide), if_neg (by decide), if_pos rfl]
      exact hkey.bind_pure fun read => some (SchedulerMessage.unlockKey read)
  | keyStatus status =>
      rw [sentBlocks, SchedulerMessage.blocks, List.flatten_cons]
      refine (reads_recvEnum (ProtocolId.code_lt _)).bind ?_
      rw [if_neg (by decide), if_neg (by decide), if_neg (by decide), if_neg (by decide),
        if_pos rfl]
      exact (reads_keyStatusBlocks hreceivable).bind_pure (Option.map SchedulerMessage.keyStatus)

theorem flatten_sentBlocks_ne_nil (message : StoredMessage) :
    (sentBlocks message).flatten ≠ [] := by
  obtain ⟨message, hreceivable⟩ := message
  cases message <;> simp [sentBlocks, SchedulerMessage.blocks, enumBytes, intBytes, littleEndian,
    littleEndianInt]

/-- Whole messages are decoded exactly. -/
theorem readsMessages_of_whole {line : Line StoredMessage UInt8} (hwhole : line.Whole sentBlocks) :
    ReadsMessages line := by
  refine ⟨hwhole, ?_⟩
  rw [show line.stream ++ line.unfinished = _ from hwhole]
  apply (receiveAll_eq_iff rfl ?_ ?_).mpr
  · intro message _
    exact reads_coordinatorMessage message
  · intro message _
    exact flatten_sentBlocks_ne_nil message
  · intro message _
    exact .inl (reads_coordinatorMessage message)

/-- **No message is torn** when a thread begins a message only while no other thread is in
the middle of one. -/
theorem readsMessages_of_runs {threads : ℕ} {events : List (Writing StoredMessage)}
    {finish : Line StoredMessage UInt8}
    (hrun : (Line.step sentBlocks).Runs (fun line writing => line.startsAlone writing = true)
      (.init threads) events finish) : ReadsMessages finish :=
  readsMessages_of_whole (Line.orderly_of_runs hrun).whole

/-- The handler answers a query about a free key, and the thread of an ESI asks afterwards. -/
theorem readsMessages_of_runs_asked :
    ∃ finish : Line StoredMessage UInt8, finish.begun.length = 2 ∧ ReadsMessages finish := by
  obtain ⟨finish, hrun, hcheck⟩ := PartialStep.exists_run_of_execute
    ((Line.step sentBlocks).guarded Line.startsAlone) (.init 1)
    [.start 0 ⟨.keyStatus .uninitialized, by decide⟩, .proceed 0,
      .start 1 ⟨.isThisKeyBlocked (literal [107]), by decide⟩, .proceed 1, .proceed 1]
    (fun line => decide (line.begun.length = 2)) (by decide)
  exact ⟨finish, of_decide_eq_true hcheck,
    readsMessages_of_runs (PartialStep.runs_of_guarded hrun)⟩

/-- The thread of an ESI asks while the handler gets the value of a key from an instance,
between the code of its answer and the state. -/
theorem not_readsMessages :
    ¬ ∀ (threads : ℕ) (events : List (Writing StoredMessage)) (finish : Line StoredMessage UInt8),
      (Line.step sentBlocks).FreeRuns (.init threads) events finish → ReadsMessages finish := by
  intro hclaim
  obtain ⟨finish, hrun, hcheck⟩ := PartialStep.exists_run_of_execute
    (Line.step sentBlocks) (.init 1)
    [.start 0 ⟨.keyStatus (.initialized (literal [105]) (literal [120])), by decide⟩,
      .start 1 ⟨.isThisKeyBlocked (literal [107]), by decide⟩, .proceed 0, .proceed 1,
      .proceed 0, .proceed 1, .proceed 0, .proceed 0, .proceed 0]
    (fun line => decide (line.stream ++ line.unfinished ≠ Line.messages sentBlocks line.begun))
    (by decide)
  exact of_decide_eq_true hcheck (hclaim 1 _ finish hrun).1

end SockMyPort.Sistema
