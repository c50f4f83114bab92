/-
# Operations on the wire

`obtain_package_from_line` of the ESI and `esi_recv_operation` of the coordinator. The
library that parses a line is a parameter.
-/

import SockMyPort.Sistema.Esi
import SockMyPort.Libs.Serializador

namespace SockMyPort.Sistema

open SockMyPort.Commons SockMyPort.Protocolo SockMyPort.Libs Library

/-! ## The ESI -/

/-- The package of an operation with a key. -/
def packageWithKey (operation : ProtocolId) (clave : CString) : Option (List UInt8) := do
  let packageSize := 4 + 8 + clave.length + 1
  let package ← addContent (createPackage packageSize) (enumBytes operation.code)
  let package ← addContentVariable package (stringBytes clave)
  buildPackage package

/-- The package of an operation with a key and a value. -/
def packageWithValue (operation : ProtocolId) (clave valor : CString) : Option (List UInt8) := do
  let packageSize := 4 + 8 + clave.length + 1 + 8 + valor.length + 1
  let package ← addContent (createPackage packageSize) (enumBytes operation.code)
  let package ← addContentVariable package (stringBytes clave)
  let package ← addContentVariable package (stringBytes valor)
  buildPackage package

/-- `obtain_package_from_line`, which ends the ESI for a line that is not valid. -/
def obtainPackageFromLine (parse : CString → Option EsiOperation) (line : CString) :
    Option (List UInt8) :=
  match parse line with
  | none => none
  | some (.get clave) => packageWithKey .ecGet clave
  | some (.set clave valor) => packageWithValue .ecSet clave valor
  | some (.store clave) => packageWithKey .ecStore clave

/-! ## The coordinator -/

/-- `esi_recv_get_args` and `esi_recv_store_args`. -/
def esiRecvKeyArgs (type : CString → EsiOperation) : Receiver EsiOperation := do
  let keySize ← recvSize
  let key ← recvString keySize
  pure (type key)

/-- `esi_recv_set_args`. -/
def esiRecvSetArgs : Receiver EsiOperation := do
  let keySize ← recvSize
  let key ← recvString keySize
  let valueSize ← recvSize
  let value ← recvString valueSize
  pure (.set key value)

/-- `esi_recv_operation`. -/
def esiRecvOperation : Receiver EsiOperation := do
  let opId ← recvEnum
  if opId = ProtocolId.ecGet.code then esiRecvKeyArgs .get
  else if opId = ProtocolId.ecSet.code then esiRecvSetArgs
  else if opId = ProtocolId.ecStore.code then esiRecvKeyArgs .store
  else failure

/-! ## What is sent is received -/

/-- The bytes of an operation. -/
def EsiOperation.bytes : EsiOperation → List UInt8
  | .get key => enumBytes ProtocolId.ecGet.code ++ sizedString key
  | .set key value => enumBytes ProtocolId.ecSet.code ++ (sizedString key ++ sizedString value)
  | .store key => enumBytes ProtocolId.ecStore.code ++ sizedString key

/-- An operation as the parser gives it, whose strings are objects of the program. -/
structure EsiOperation.Parsed (operation : EsiOperation) : Prop where
  keySize : esiCheckKeySize operation = true
  inMemory : ∀ key value, operation = .set key value → InMemory value

/-- One call of `recv` gives the value of a SET. -/
def ReceivableOperation (operation : EsiOperation) : Prop :=
  ∀ key value, operation = .set key value → Receivable value

theorem packageWithKey_eq (operation : ProtocolId) (clave : CString) :
    packageWithKey operation clave = some (enumBytes operation.code ++ sizedString clave) := by
  have hlength : (enumBytes operation.code ++ sizedString clave).length =
      4 + 8 + clave.length + 1 := by
    simp [enumBytes, sizeBytes]
    omega
  obtain ⟨first, hfirst, hholds⟩ := exists_addContent (enumBytes operation.code)
    (holds_createPackage (4 + 8 + clave.length + 1)) (by simp [enumBytes]; omega)
  obtain ⟨second, hsecond, hholds⟩ := exists_addContentVariable (stringBytes clave) hholds
    hlength.le
  rw [List.nil_append, ← hlength] at hholds
  simp only [packageWithKey, hfirst, hsecond, Option.bind_eq_bind, Option.bind_some]
  exact buildPackage_eq hholds

theorem packageWithValue_eq (operation : ProtocolId) (clave valor : CString) :
    packageWithValue operation clave valor =
      some (enumBytes operation.code ++ (sizedString clave ++ sizedString valor)) := by
  have hlength : (enumBytes operation.code ++ (sizedString clave ++ sizedString valor)).length =
      4 + 8 + clave.length + 1 + 8 + valor.length + 1 := by
    simp [enumBytes, sizeBytes]
    omega
  obtain ⟨first, hfirst, hholds⟩ := exists_addContent (enumBytes operation.code)
    (holds_createPackage (4 + 8 + clave.length + 1 + 8 + valor.length + 1))
    (by simp [enumBytes]; omega)
  obtain ⟨second, hsecond, hholds⟩ := exists_addContentVariable (stringBytes clave) hholds
    (by simp [enumBytes, sizeBytes]; omega)
  obtain ⟨third, hthird, hholds⟩ := exists_addContentVariable (stringBytes valor) hholds
    (by rw [List.nil_append, List.append_assoc]; exact hlength.le)
  rw [List.nil_append, List.append_assoc, ← hlength] at hholds
  simp only [packageWithValue, hfirst, hsecond, hthird, Option.bind_eq_bind, Option.bind_some]
  exact buildPackage_eq hholds

/-- The package of a valid line holds the bytes of its operation. -/
theorem obtainPackageFromLine_eq {parse : CString → Option EsiOperation} {line : CString}
    {operation : EsiOperation} (hparse : parse line = some operation) :
    obtainPackageFromLine parse line = some operation.bytes := by
  rw [obtainPackageFromLine, hparse]
  cases operation with
  | get key => exact packageWithKey_eq .ecGet key
  | set key value => exact packageWithValue_eq .ecSet key value
  | store key => exact packageWithKey_eq .ecStore key

theorem reads_esiRecvKeyArgs (type : CString → EsiOperation) {key : CString}
    (hkey : Receivable key) :
    Reads (esiRecvKeyArgs type) (sizedString key) (type key) := by
  have hreads : Reads (esiRecvKeyArgs type) (sizedString key ++ []) (type key) :=
    reads_sizedString hkey (reads_pure (type key))
  rw [List.append_nil] at hreads
  exact hreads

theorem reads_esiRecvSetArgs {key value : CString} (hkey : Receivable key)
    (hvalue : Receivable value) :
    Reads esiRecvSetArgs (sizedString key ++ sizedString value) (.set key value) := by
  rw [esiRecvSetArgs]
  apply reads_sizedString hkey
  have hreads := reads_esiRecvKeyArgs (.set key) hvalue
  exact hreads

theorem refuses_esiRecvSetArgs {key value : CString} (hkey : Receivable key)
    (hmemory : InMemory value) (hlarge : ¬ Receivable value) :
    Refuses esiRecvSetArgs (sizedString key ++ sizedString value) := by
  have hvalue : Refuses (esiRecvKeyArgs (.set key)) (sizedString value ++ []) :=
    refuses_sizedString hmemory hlarge []
  rw [List.append_nil] at hvalue
  rw [sizedString, List.append_assoc, esiRecvSetArgs]
  refine (reads_recvSize hkey.inMemory.size_lt).refuses_bind ?_
  rw [length_stringBytes]
  exact (reads_recvString hkey).refuses_bind hvalue

/-- A key that was accepted is received. -/
theorem EsiOperation.Parsed.receivable_key {operation : EsiOperation}
    (hparsed : operation.Parsed) : Receivable operation.key := by
  have hshort := of_decide_eq_true hparsed.keySize
  unfold Receivable recvMost
  omega

/-- **The coordinator reads the operation** that the ESI sends. -/
theorem reads_esiRecvOperation {operation : EsiOperation} (hparsed : operation.Parsed)
    (hreceivable : ReceivableOperation operation) :
    Reads esiRecvOperation operation.bytes operation := by
  have hkey := hparsed.receivable_key
  cases operation with
  | get key => exact (reads_recvEnum (by decide)).bind (reads_esiRecvKeyArgs .get hkey)
  | set key value =>
      exact (reads_recvEnum (by decide)).bind
        (reads_esiRecvSetArgs hkey (hreceivable key value rfl))
  | store key => exact (reads_recvEnum (by decide)).bind (reads_esiRecvKeyArgs .store hkey)

/-- The coordinator refuses a SET whose value no call of `recv` gives. -/
theorem refuses_esiRecvOperation {operation : EsiOperation} (hparsed : operation.Parsed)
    (hlarge : ¬ ReceivableOperation operation) : Refuses esiRecvOperation operation.bytes := by
  cases operation with
  | get key => exact absurd (fun _ _ hsame => by cases hsame) hlarge
  | set key value =>
      have hvalue : ¬ Receivable value := by
        intro hreceivable
        refine hlarge fun _ _ hsame => ?_
        cases hsame
        exact hreceivable
      exact (reads_recvEnum (by decide)).refuses_bind (refuses_esiRecvSetArgs
        hparsed.receivable_key (hparsed.inMemory key value rfl) hvalue)
  | store key => exact absurd (fun _ _ hsame => by cases hsame) hlarge

end SockMyPort.Sistema
