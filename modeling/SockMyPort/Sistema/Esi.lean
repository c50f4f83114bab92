/-
# An ESI and the thread that serves it

`esi.c` and the thread of the coordinator in `esi-connection.c`. The ESI waits for
the answer to each operation and the thread for the next operation, so that one
phase says where a statement is. The thread goes on when the ESI dies.

Lines are parsed by a library; a line that is not valid ends the ESI, which may
end at any time anyway.
-/

import SockMyPort.Planificador.Main

namespace SockMyPort.Sistema

open SockMyPort.Commons SockMyPort.Planificador

/-- `struct esi_operation_t`. -/
inductive EsiOperation
  | get (key : CString)
  | set (key value : CString)
  | store (key : CString)
  deriving DecidableEq

/-- The key of an operation. -/
def EsiOperation.key : EsiOperation → CString
  | .get key => key
  | .set key _ => key
  | .store key => key

/-- `esi_check_key_size`. -/
def esiCheckKeySize (operation : EsiOperation) : Bool := decide (operation.key.length ≤ 40)

/-- What the coordinator answers to an ESI. -/
inductive CoordinatorReply
  | everythingOk
  | youAreBlocked
  | illegalOperation
  deriving DecidableEq

/-- Where the statement of an ESI is. -/
inductive Phase
  /-- The ESI is in `wait_for_execution_order`. -/
  | waitForExecutionOrder
  /-- The operation is on its way to the thread. -/
  | sent (operation : EsiOperation)
  /-- The thread is in `scheduler_recv_key_state` and waits for the first answer. -/
  | recvKeyState (operation : EsiOperation)
  /-- It waits for the second answer. -/
  | recvBlockedByExecutingEsi (operation : EsiOperation)
  /-- The thread is in `scheduler_block_key`. -/
  | blockKey (operation : EsiOperation)
  /-- The operation is on the list of requests of an instance. -/
  | requested (operation : EsiOperation)
  /-- The thread of the instance is in `scheduler_unblock_key`. -/
  | unblockKey (operation : EsiOperation)
  /-- The answer is on its way to the ESI. -/
  | replied (reply : CoordinatorReply)
  /-- The ESI has sent its success, and not yet whether the script has finished. -/
  | sendScriptEnd
  deriving DecidableEq

/-- The coordinator is busy with the operation of the ESI. -/
def Phase.inFlight : Phase → Bool
  | .sent _ | .recvKeyState _ | .recvBlockedByExecutingEsi _ | .blockKey _ | .requested _
  | .unblockKey _ => true
  | .waitForExecutionOrder | .replied _ | .sendScriptEnd => false

/-- A process that runs a script. -/
structure Esi where
  /-- The scheduler's socket of the connection. -/
  fd : ℤ
  /-- The lines that are left, the current one first. -/
  lines : List EsiOperation
  phase : Phase
  /-- How many `PROTOCOL_PE_EXEC` it has been sent and has not read. -/
  orders : ℕ
  /-- What it has sent to the scheduler and the scheduler has not read. -/
  results : List ExecutionResult
  /-- The process has not exited. -/
  alive : Bool
  /-- The scheduler has not closed the connection. -/
  connected : Bool
  deriving DecidableEq

namespace Esi

/-- The body of the loop of `main`, from one blocking call to the next. -/
def run (esi : Esi) : Option Esi :=
  if esi.alive then
    match esi.phase with
    | .waitForExecutionOrder =>
        match esi.lines, esi.orders with
        | operation :: _, orders + 1 => some { esi with orders := orders, phase := .sent operation }
        | _, _ => none
    | .replied .everythingOk =>
        some { esi with
          lines := esi.lines.tail
          results := esi.results ++ [.executionSuccess]
          phase := .sendScriptEnd }
    | .sendScriptEnd =>
        some { esi with
          results := esi.results ++
            [if esi.lines.isEmpty then .finishedScript else .didntFinishScript]
          phase := .waitForExecutionOrder
          alive := !esi.lines.isEmpty }
    -- the line is kept
    | .replied .youAreBlocked =>
        some { esi with
          results := esi.results ++ [.iAmBlocked]
          phase := .waitForExecutionOrder }
    -- it exits before the result is sent
    | .replied .illegalOperation => some { esi with alive := false }
    | _ => none
  else none

/-- One `recv` of the scheduler; it blocks while nothing was sent. -/
def recv (esi : Esi) (garbage : ExecutionResult) : Option (Received × Esi) :=
  match esi.results with
  | result :: results => some (.code result, { esi with results := results })
  | [] => if esi.alive then none else some (.failure garbage, esi)

/-- What the scheduler reads from an ESI that is ready. The second code is read
after a success. -/
def recvResult (esi : Esi) (garbage scriptGarbage : ExecutionResult) :
    Option (Received × Received × Esi) := do
  let (result, received) ← esi.recv garbage
  match result with
  | .code .executionSuccess =>
      let (scriptEnd, ended) ← received.recv scriptGarbage
      some (result, scriptEnd, ended)
  | _ => some (result, .failure scriptGarbage, received)

/-- What a turn of the scheduler means to an ESI: its connection may be closed, and
it may be told to execute. -/
def hear (connectedFds orders : List ℤ) (esi : Esi) : Esi :=
  if esi.connected && connectedFds.contains esi.fd then
    { esi with orders := esi.orders + orders.count esi.fd }
  else { esi with connected := false }

end Esi

/-! ## The thread of the coordinator -/

/-- `handle_esi_operation`, up to the question to the scheduler. -/
def askKeyState (operation : EsiOperation) : Phase × List CoordinatorMessage :=
  if esiCheckKeySize operation then
    (.recvKeyState operation, [.isThisKeyBlocked operation.key])
  else (.replied .illegalOperation, [])

/-- The branches of `handle_esi_operation` for `KEY_UNBLOCKED`. -/
def keyUnblocked (operation : EsiOperation) : Phase × List CoordinatorMessage :=
  match operation with
  | .get _ => (.blockKey operation, [.blockKey])
  | .set _ _ | .store _ => (.replied .illegalOperation, [])

/-- The first answer in `scheduler_recv_key_state`; the coordinator exits when it is
any other. -/
def recvKeyState (operation : EsiOperation) :
    CoordinatorAnswer → Option (Phase × List CoordinatorMessage)
  | .keyIsNotBlocked => some (keyUnblocked operation)
  | .keyIsBlocked => some (.recvBlockedByExecutingEsi operation, [.isKeyBlockedByExecutingEsi])
  | _ => none

/-- The branches of `handle_esi_operation` for `KEY_BLOCKED_BY_EXECUTING_ESI`; a SET
or a STORE needs an instance to be queued on. -/
def keyBlockedByExecutingEsi (operation : EsiOperation) (dispatched : Bool) : Phase :=
  match operation with
  | .get _ => .replied .everythingOk
  | .set _ _ | .store _ =>
      if dispatched then .requested operation else .replied .illegalOperation

/-- The branches of `handle_esi_operation` for `KEY_BLOCKED`. -/
def keyBlocked (operation : EsiOperation) : Phase :=
  match operation with
  | .get _ => .replied .youAreBlocked
  | .set _ _ | .store _ => .replied .illegalOperation

/-- The second answer in `scheduler_recv_key_state`. -/
def recvBlockedByExecutingEsi (operation : EsiOperation) (dispatched : Bool) :
    CoordinatorAnswer → Option Phase
  | .keyBlockedByExecutingEsi => some (keyBlockedByExecutingEsi operation dispatched)
  | .keyNotBlockedByExecutingEsi => some (keyBlocked operation)
  | _ => none

/-- `instance_handle_set_request` and `instance_handle_store_request`, by whether
the instance succeeds. A request that is moved to another instance is still
queued. -/
def handleRequest (operation : EsiOperation) (succeeds : Bool) :
    Option (Phase × List CoordinatorMessage) :=
  match operation with
  | .get _ => none
  | .set _ _ =>
      some (.replied (if succeeds then .everythingOk else .illegalOperation), [])
  | .store key =>
      some (if succeeds then (.unblockKey operation, [.unlockKey key])
        else (.replied .illegalOperation, []))

end SockMyPort.Sistema
