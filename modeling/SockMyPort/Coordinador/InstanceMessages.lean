/-
# What the coordinator sends to an instance and reads from it

The instructions of `instance-connection.c`, each a sequence of blocks that are sent one
by one, and the readers of the replies.
-/

import SockMyPort.Protocolo.Protocolo
import SockMyPort.Commons.Integers

namespace SockMyPort.Coordinador

open SockMyPort.Commons SockMyPort.Protocolo Library

/-! ## Instructions -/

/-- What the coordinator asks an instance for. Whether a key is new is looked up in the
key table when the instruction is sent. -/
inductive Instruction
  | set (isNew : Bool) (key value : CString)
  | store (key : CString)
  | compact
  | requestValue (key : CString)
  | isAlive
  deriving DecidableEq

/-- The blocks of `instance_send_set_instruction`. -/
def instanceSendSetInstruction (isNew : Bool) (key value : CString) : List (List UInt8) :=
  [enumBytes RequestCoordinador.set.code, boolBytes isNew, sizeBytes (key.length + 1),
    stringBytes key, sizeBytes (value.length + 1), stringBytes value]

/-- The blocks of `instance_send_store_instruction`. -/
def instanceSendStoreInstruction (key : CString) : List (List UInt8) :=
  [enumBytes RequestCoordinador.store.code, sizeBytes (key.length + 1), stringBytes key]

/-- The block of `instance_send_compact`. -/
def instanceSendCompact : List (List UInt8) := [enumBytes RequestCoordinador.compact.code]

/-- The blocks that `instance_request_value` sends. -/
def instanceSendRequestValue (key : CString) : List (List UInt8) :=
  [enumBytes RequestCoordinador.requestValue.code, sizeBytes (key.length + 1), stringBytes key]

/-- The block that `instance_test_connection` sends. -/
def instanceSendIsAlive : List (List UInt8) := [enumBytes RequestCoordinador.isAlive.code]

/-- The blocks of an instruction. -/
def Instruction.blocks : Instruction → List (List UInt8)
  | .set isNew key value => instanceSendSetInstruction isNew key value
  | .store key => instanceSendStoreInstruction key
  | .compact => instanceSendCompact
  | .requestValue key => instanceSendRequestValue key
  | .isAlive => instanceSendIsAlive

/-- The bytes of an instruction. -/
def Instruction.bytes (instruction : Instruction) : List UInt8 := instruction.blocks.flatten

/-! ## The handshake -/

/-- What the configuration of the coordinator says about the storage. -/
structure EntriesSetup where
  entriesNum : ℤ
  entriesSize : ℤ

/-- The blocks of `instance_send_confirmation`: the header, and the size and the text of
each key. -/
def instanceSendConfirmation (setup : EntriesSetup) (keyList : List CString) : List (List UInt8) :=
  (sizeBytes (toSizeT setup.entriesSize) ++ sizeBytes (toSizeT setup.entriesNum) ++
      sizeBytes keyList.length) ::
    keyList.flatMap fun key => [sizeBytes (key.length + 1), stringBytes key]

/-- The block of `instance_send_confirmation_error`. -/
def instanceSendConfirmationError : List UInt8 :=
  enumBytes RequestCoordinador.handshakeConfirmation.code ++ boolBytes false

/-! ## Replies -/

/-- `instance_recv_set_execution_status`. -/
def instanceRecvSetExecutionStatus : Receiver (ℤ × ℕ) := do
  let opCode ← recvEnum
  if opCode = RequestInstancia.notifyStatus.code then
    let statusCode ← recvInt
    let usedEntries ← recvSize
    pure (statusCode, usedEntries)
  else failure

/-- `instance_recv_store_execution_status`. -/
def instanceRecvStoreExecutionStatus : Receiver ℤ := do
  let opCode ← recvEnum
  if opCode = RequestInstancia.notifyStore.code then recvInt else failure

/-- The end of `instance_request_value`: the value, or `NULL` for a key that was replaced. -/
def instanceRecvValue : Receiver (Option CString) := do
  let responseOpCode ← recvEnum
  if responseOpCode = RequestInstancia.retrieveValue.code then
    let status ← recvInt
    -- `VALUE_STATUS_OK`
    if status = 1 then
      let valueSize ← recvSize
      if valueSize ≤ 0 then failure
      else some <$> recvString valueSize
    -- `VALUE_STATUS_REPLACED`
    else if status = 0 then pure none
    else failure
  else failure

/-- The end of `instance_test_connection`. -/
def instanceRecvConfirmation : Receiver Unit := do
  let response ← recvEnum
  if response = RequestInstancia.confirmConnection.code then pure () else failure

end SockMyPort.Coordinador
