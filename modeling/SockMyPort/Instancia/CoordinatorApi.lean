/-
# The instance's side of the wire

`coordinator_api.c`: requests are received with chunks, and replies are sent as chunks.
-/

import SockMyPort.Instancia.Globals
import SockMyPort.Libs.Serializador

namespace SockMyPort.Instancia

open SockMyPort.Commons SockMyPort.Protocolo SockMyPort.Libs Library

/-! ## Requests -/

/-- `coordinator_api_receive_header`. -/
def coordinatorApiReceiveHeader : Receiver ℕ := ofLittleEndian <$> chunkRecv recvLimit 4

/-- A `bool` that is received. -/
def chunkRecvBool : Receiver Bool := (fun bytes => bytes != [0]) <$> chunkRecv recvLimit 1

/-- `coordinator_api_receive_set`. -/
def coordinatorApiReceiveSet : Receiver (Bool × KeyValue) := do
  let isNew ← chunkRecvBool
  let key ← chunkRecvVariable recvLimit
  let value ← chunkRecvVariable recvLimit
  pure (isNew, keyValueCreate (stringOf key) (stringOf value))

/-- `coordinator_api_receive_key`. -/
def coordinatorApiReceiveKey : Receiver CString := stringOf <$> chunkRecvVariable recvLimit

/-- `coordinator_api_handshake_receive_config`: the size of the entries, how many there
are, and the keys to recover. -/
def coordinatorApiHandshakeReceiveConfig : Receiver (ℕ × ℕ × List CString) := do
  let entrySize ← chunkRecvSize recvLimit
  let totalEntries ← chunkRecvSize recvLimit
  let recoverableKeys ← chunkRecvList recvLimit coordinatorApiReceiveKey
  pure (entrySize, totalEntries, recoverableKeys)

/-- A request as `instance_thread_api` sees it. -/
inductive ReceivedRequest
  | set (isNew : Bool) (keyValue : KeyValue)
  | store (key : CString)
  | compact
  | requestValue (key : CString)
  | isAlive
  | kill
  deriving DecidableEq

/-- The `switch` of `instance_thread_api`, up to the arguments; a header that is not
expected ends the connection. -/
def receiveRequest : Receiver ReceivedRequest := do
  let header ← coordinatorApiReceiveHeader
  if header = RequestCoordinador.set.code then
    (fun received => .set received.1 received.2) <$> coordinatorApiReceiveSet
  else if header = RequestCoordinador.store.code then
    .store <$> coordinatorApiReceiveKey
  else if header = RequestCoordinador.compact.code then
    pure .compact
  else if header = RequestCoordinador.requestValue.code then
    .requestValue <$> coordinatorApiReceiveKey
  else if header = RequestCoordinador.isAlive.code then
    pure .isAlive
  else if header = RequestCoordinador.kill.code then
    pure .kill
  else failure

/-! ## Replies -/

/-- `coordinator_api_notify_header`. -/
def coordinatorApiNotifyHeader (header : RequestInstancia) : Chunk :=
  chunkAdd chunkCreate (enumBytes header.code)

/-- `coordinator_api_notify_status`. -/
def coordinatorApiNotifyStatus (header : RequestInstancia) (opResult : ℤ) : Chunk :=
  chunkAdd (chunkAdd chunkCreate (enumBytes header.code)) (intBytes opResult)

/-- `coordinator_api_notify_set`. -/
def coordinatorApiNotifySet (entriesUsed : ℕ) (opResult : ℤ) : Chunk :=
  chunkAdd (chunkAdd (chunkAdd chunkCreate (enumBytes RequestInstancia.notifyStatus.code))
    (intBytes opResult)) (sizeBytes entriesUsed)

/-- `coordinator_api_notify_key_value`: as many bytes of the value as its size says, and
one more. -/
def coordinatorApiNotifyKeyValue (keyValue : KeyValue) (opResult : ℤ) : Chunk :=
  chunkAddVariable (chunkAdd (chunkAdd chunkCreate (enumBytes RequestInstancia.retrieveValue.code))
    (intBytes opResult)) ((stringBytes keyValue.value).take (keyValue.size + 1))

/-! ## What a success means -/

theorem steady_coordinatorApiReceiveKey : Steady coordinatorApiReceiveKey :=
  steady_map _ steady_chunkRecvVariable

theorem steady_coordinatorApiHandshakeReceiveConfig :
    Steady coordinatorApiHandshakeReceiveConfig :=
  steady_bind steady_chunkRecvSize fun _ => steady_bind steady_chunkRecvSize fun _ =>
    steady_bind (steady_chunkRecvList steady_coordinatorApiReceiveKey) fun _ => steady_pure _

theorem steady_coordinatorApiReceiveSet : Steady coordinatorApiReceiveSet :=
  steady_bind (steady_map _ (steady_chunkRecv recvLimit 1)) fun _ =>
    steady_bind steady_chunkRecvVariable fun _ =>
      steady_bind steady_chunkRecvVariable fun _ => steady_pure _

theorem steady_receiveRequest : Steady receiveRequest := by
  refine steady_bind (steady_map _ (steady_chunkRecv recvLimit 4)) fun header => ?_
  have hkey := steady_coordinatorApiReceiveKey
  refine steady_ite (steady_map _ steady_coordinatorApiReceiveSet) ?_
  refine steady_ite (steady_map _ hkey) ?_
  refine steady_ite (steady_pure _) ?_
  refine steady_ite (steady_map _ hkey) ?_
  exact steady_ite (steady_pure _) (steady_ite (steady_pure _) steady_failure)

end SockMyPort.Instancia
