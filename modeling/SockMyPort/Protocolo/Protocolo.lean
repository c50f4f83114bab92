/-
# The protocols and how their fields lie in a stream

The enumerations of `protocolo`, and the fields that all processes send: enumerations and
`int` take four bytes, `size_t` eight and `bool` one, the least significant first. A string
is sent with its terminator, after its size.
-/

import SockMyPort.Commons.Strings
import SockMyPort.Library.Wire

namespace SockMyPort.Protocolo

open SockMyPort.Commons Library

/-! ## Enumerations -/

/-- `protocol_id`, in the order of the header. -/
inductive ProtocolId
  | anyCloseConnection | anyHandshake | anySendMsg | peExec | ecSet | ciPersistKey
  | icPersistKeySuccess | ecGet | cpIsThisKeyBlocked | epExecutionSuccess | epIAmBlocked
  | pcKeyIsBlocked | pcKeyIsNotBlocked | cpIsKeyBlockedByExecutingEsi
  | pcKeyBlockedByExecutingEsi | pcKeyNotBlockedByExecutingEsi | cpBlockKey
  | pcKeyBlockedSuccesfully | cpUnlockKey | pcKeyUnlockedSuccesfully | epFinishedScript
  | epDidntFinishScript | ecStore | ceEverythingOk | ceYouAreBlocked | ceIllegalOperation
  | epIBrokeTheLaw | pcKeyStatus | cpKeyStatus
  deriving DecidableEq

/-- `request_coordinador`, in the order of the header. -/
inductive RequestCoordinador
  | handshakeConfirmation | set | store | compact | requestValue | isAlive | kill
  deriving DecidableEq

/-- `request_instancia`, in the order of the header. -/
inductive RequestInstancia
  | handshake | notifyStatus | notifyStore | retrieveValue | confirmConnection | die
  deriving DecidableEq

/-- The value of an enumerator. -/
abbrev ProtocolId.code (id : ProtocolId) : ℕ := id.ctorIdx

@[inherit_doc ProtocolId.code]
abbrev RequestCoordinador.code (request : RequestCoordinador) : ℕ := request.ctorIdx

@[inherit_doc ProtocolId.code]
abbrev RequestInstancia.code (request : RequestInstancia) : ℕ := request.ctorIdx

theorem ProtocolId.code_lt (id : ProtocolId) : id.code < 256 ^ 4 := by
  cases id <;> decide

theorem RequestCoordinador.code_lt (request : RequestCoordinador) : request.code < 256 ^ 4 := by
  cases request <;> decide

theorem RequestInstancia.code_lt (request : RequestInstancia) : request.code < 256 ^ 4 := by
  cases request <;> decide

/-! ## Fields -/

/-- The bytes of an enumerator. -/
def enumBytes (code : ℕ) : List UInt8 := littleEndian 4 code

/-- The bytes of an `int`. -/
def intBytes (number : ℤ) : List UInt8 := littleEndianInt 4 number

/-- The bytes of a `size_t`. -/
def sizeBytes (size : ℕ) : List UInt8 := littleEndian 8 size

theorem length_sizeBytes (size : ℕ) : (sizeBytes size).length = 8 := length_littleEndian 8 size

/-- The byte of a `bool`. -/
def boolBytes (flag : Bool) : List UInt8 := [if flag then 1 else 0]

/-- A string with its terminator. -/
def stringBytes (string : CString) : List UInt8 := bytesOf string ++ [0]

@[simp]
theorem length_stringBytes (string : CString) :
    (stringBytes string).length = string.length + 1 := by
  simp [stringBytes]

/-- The bytes of a string after its size. -/
abbrev sizedString (string : CString) : List UInt8 :=
  sizeBytes (stringBytes string).length ++ stringBytes string

/-- A string that is an object of the program: its size is a difference of pointers. -/
def InMemory (string : CString) : Prop := string.length + 1 < 2 ^ 63

instance (string : CString) : Decidable (InMemory string) :=
  inferInstanceAs (Decidable (string.length + 1 < 2 ^ 63))

/-- The range of an `int`. -/
def IsInt (number : ℤ) : Prop := -2 ^ 31 ≤ number ∧ number < 2 ^ 31

instance (number : ℤ) : Decidable (IsInt number) := by
  unfold IsInt
  infer_instance

/-- `CHECK_RECV` of an enumerator. -/
def recvEnum : Receiver ℕ := receiveNat 4

/-- `CHECK_RECV` of an `int`. -/
def recvInt : Receiver ℤ := receiveInt 4

/-- `CHECK_RECV` of a `size_t`. -/
def recvSize : Receiver ℕ := receiveNat 8

/-- What one call of `recv` gives at most, whatever size it is asked for. -/
def recvMost : ℕ := 0x7ffff000

/-- The limit of one call of `recv`. -/
def recvLimit : Option ℕ := some recvMost

/-- A string that one call of `recv` gives with its terminator. Every string that a
process was sent is one. -/
def Receivable (string : CString) : Prop := string.length + 1 ≤ recvMost

instance (string : CString) : Decidable (Receivable string) :=
  inferInstanceAs (Decidable (string.length + 1 ≤ recvMost))

/-- The string at the beginning of a buffer that one call of `recv` fills. -/
def recvString (size : ℕ) : Receiver CString := stringOf <$> receiveWithin recvLimit size

theorem reads_recvEnum {code : ℕ} (hcode : code < 256 ^ 4) :
    Reads recvEnum (enumBytes code) code := reads_receiveNat hcode

theorem reads_recvInt {number : ℤ} (hint : IsInt number) :
    Reads recvInt (intBytes number) number := by
  apply reads_receiveInt
  obtain ⟨hlow, hhigh⟩ := hint
  exact Int.bmod_eq_of_le (by norm_num; omega) (by norm_num; omega)

theorem reads_recvSize {size : ℕ} (hsize : size < 2 ^ 64) :
    Reads recvSize (sizeBytes size) size := reads_receiveNat (by norm_num; omega)

/-- The terminator of a message ends the string. -/
@[simp]
theorem stringOf_stringBytes (string : CString) : stringOf (stringBytes string) = string :=
  stringOf_bytesOf_append_zero string []

theorem within_recvLimit_iff {size : ℕ} : (∀ most ∈ recvLimit, size ≤ most) ↔ size ≤ recvMost := by
  simp [recvLimit]

theorem reads_recvString {string : CString} (hreceivable : Receivable string) :
    Reads (recvString (string.length + 1)) (stringBytes string) string := by
  have hlimit := within_recvLimit_iff.mpr hreceivable
  have hreads := (reads_receiveWithin (length_stringBytes string) hlimit).map stringOf
  rw [stringOf_stringBytes] at hreads
  exact hreads

/-- A longer string is cut by the limit, and its receiver does not go on. -/
theorem refuses_recvString {string : CString} (hlarge : ¬ Receivable string)
    (message : List UInt8) : Refuses (recvString (string.length + 1)) message := by
  refine Refuses.map stringOf (refuses_receiveWithin ?_)
  rw [within_recvLimit_iff]
  exact hlarge

theorem InMemory.size_lt {string : CString} (hmemory : InMemory string) :
    (stringBytes string).length < 2 ^ 64 := by
  rw [length_stringBytes]
  exact Nat.lt_trans hmemory (Nat.pow_lt_pow_right (by decide) (by decide))

theorem Receivable.inMemory {string : CString} (hreceivable : Receivable string) :
    InMemory string :=
  lt_of_le_of_lt hreceivable (by decide)

/-- A size and a string of that size. -/
theorem reads_sizedString {string : CString} (hreceivable : Receivable string) {β : Type}
    {next : CString → Receiver β} {message : List UInt8} {value : β}
    (hnext : Reads (next string) message value) :
    Reads (do let size ← recvSize; let read ← recvString size; next read)
      (sizedString string ++ message) value := by
  rw [sizedString, List.append_assoc]
  refine (reads_recvSize hreceivable.inMemory.size_lt).bind ?_
  rw [length_stringBytes]
  exact (reads_recvString hreceivable).bind hnext

/-- A size and a string that no call of `recv` gives as a whole. -/
theorem refuses_sizedString {string : CString} (hmemory : InMemory string)
    (hlarge : ¬ Receivable string) {β : Type} {next : CString → Receiver β}
    (message : List UInt8) :
    Refuses (do let size ← recvSize; let read ← recvString size; next read)
      (sizedString string ++ message) := by
  rw [sizedString, List.append_assoc]
  refine (reads_recvSize hmemory.size_lt).refuses_bind ?_
  rw [length_stringBytes]
  exact (refuses_recvString hlarge (stringBytes string)).bind message

end SockMyPort.Protocolo
