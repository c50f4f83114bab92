/-
# Messages that end too early

`receive_inquired_key` of `planificador.c` and `receive_and_print_key_status` of
`consola.c` take zero for an error, which no receiving function returns. A message that
ends within its size or within its body is therefore never noticed: what is used is
memory that was allocated for a size that may not have been received, and not filled.
-/

import SockMyPort.Libs.Deserializador

namespace SockMyPort.Planificador

open SockMyPort.Commons SockMyPort.Protocolo SockMyPort.Libs Library

/-! ## The callers -/

/-- `receive_inquired_key`. Without a key the program ends in `kaboom_baby`. -/
def receiveInquiredKey (malloc : Malloc) (packageSize stream : List UInt8) :
    Option (Option (List UInt8)) :=
  let result := recvPackageVariable malloc packageSize false stream
  if result.code = 0 then none else some result.memory

/-- What the variables of `receive_and_print_key_status` and of the calls in it hold
before they are set. -/
structure Uninitialized where
  keyState : List UInt8
  nameSize : List UInt8
  valueSize : List UInt8
  length_keyState : keyState.length = 4
  length_nameSize : nameSize.length = 8
  length_valueSize : valueSize.length = 8

/-- What is printed, with the memory that is printed as a string. -/
inductive PrintedStatus where
  | receptionError
  | instanceDisconnected (instanceName : Option (List UInt8))
  | notExist
  | unassigned
  | assigned (keyValue instanceName : Option (List UInt8))
  | nothing
  deriving DecidableEq

/-- `receive_and_print_key_status`. The results of the calls for a name and a value are
not looked at. -/
def receiveAndPrintKeyStatus (malloc : Malloc) (stack : Uninitialized)
    (stream : List UInt8) : PrintedStatus :=
  let received := recvPackage (some stack.keyState) 4 stream
  if received.code = 0 then .receptionError
  else
    let keyState := Int.bmod (ofLittleEndian (received.memory.getD [])) (2 ^ 32)
    if keyState = -2 then
      let name := recvPackageVariable malloc stack.nameSize false received.rest
      .instanceDisconnected name.memory
    else if keyState = -1 then .notExist
    else if keyState = 0 then .unassigned
    else if keyState = 1 then
      let name := recvPackageVariable malloc stack.nameSize false received.rest
      let value := recvPackageVariable malloc stack.valueSize false name.rest
      .assigned value.memory name.memory
    else .nothing

/-! ## Truncation -/

variable {malloc : Malloc} {stack : Uninitialized} {packageSize stream : List UInt8}

/-- The stream ends before a message of variable length does, within its size or within
its body. -/
def Truncated (stream : List UInt8) : Prop :=
  stream.length < 8 ∨ stream.length < 8 + ofLittleEndian (stream.take 8)

instance (stream : List UInt8) : Decidable (Truncated stream) := by
  unfold Truncated
  infer_instance

/-- The memory was not received as a whole from the stream, if there is any. -/
def Unreceived (stream : List UInt8) (memory : Option (List UInt8)) : Prop :=
  ∀ bytes, memory = some bytes → stream.length < 8 + bytes.length

/-- What the program is meant to do with a message that ends too early: the callers
recognise the code, and take their error branches. -/
structure TruncationDetected (malloc : Malloc) (stack : Uninitialized)
    (stream : List UInt8) : Prop where
  recognised : (recvPackageVariable malloc stack.nameSize false stream).code = 0
  inquired : receiveInquiredKey malloc stack.nameSize stream = none
  disconnected :
    receiveAndPrintKeyStatus malloc stack (intBytes (-2) ++ stream) = .receptionError
  name : receiveAndPrintKeyStatus malloc stack (intBytes 1 ++ stream) = .receptionError
  value : ∀ name, name.length ≤ recvMost → (malloc.allocate name.length).isSome →
    receiveAndPrintKeyStatus malloc stack
      (intBytes 1 ++ (sizeBytes name.length ++ name ++ stream)) = .receptionError

/-- What it does: no error branch is taken, and what is returned or printed was not
received. -/
structure TruncationUnnoticed (malloc : Malloc) (stack : Uninitialized)
    (stream : List UInt8) : Prop where
  unrecognised : (recvPackageVariable malloc stack.nameSize false stream).code ≠ 0
  inquired : ∃ key, receiveInquiredKey malloc stack.nameSize stream = some key ∧
    Unreceived stream key
  disconnected : ∃ name,
    receiveAndPrintKeyStatus malloc stack (intBytes (-2) ++ stream) =
      .instanceDisconnected name ∧ Unreceived stream name
  name : ∃ value name,
    receiveAndPrintKeyStatus malloc stack (intBytes 1 ++ stream) = .assigned value name ∧
      Unreceived stream name
  value : ∀ name, name.length ≤ recvMost → (malloc.allocate name.length).isSome → ∃ value,
    receiveAndPrintKeyStatus malloc stack
      (intBytes 1 ++ (sizeBytes name.length ++ name ++ stream)) = .assigned value (some name) ∧
      Unreceived stream value

/-! ## The result -/

theorem code_recvPackageVariable_ne_zero (malloc : Malloc) (packageSize stream : List UInt8) :
    (recvPackageVariable malloc packageSize false stream).code ≠ 0 := by
  rw [recvPackageVariable_eq]
  exact code_recvPackage_ne_zero _ _ _

theorem unreceived_recvPackageVariable (hpackage : packageSize.length = 8)
    (htruncated : Truncated stream) :
    Unreceived stream (recvPackageVariable malloc packageSize false stream).memory := by
  intro bytes hbytes
  by_cases hshort : stream.length < 8
  · omega
  · have hbody : stream.length < 8 + ofLittleEndian (stream.take 8) :=
      htruncated.resolve_left hshort
    rw [length_memory_recvPackageVariable hbytes, sizeRead_of_le hpackage (by omega)]
    exact hbody

/-- A state that is there as a whole is read. -/
theorem recvPackage_keyState (stack : Uninitialized) (keyState : ℤ) (stream : List UInt8) :
    recvPackage (some stack.keyState) 4 (intBytes keyState ++ stream) =
      ⟨recvSuccess, some (intBytes keyState), stream⟩ :=
  recvPackage_append stack.length_keyState (length_littleEndianInt 4 keyState) (by decide) stream

theorem receiveAndPrintKeyStatus_disconnected (malloc : Malloc) (stack : Uninitialized)
    (stream : List UInt8) :
    receiveAndPrintKeyStatus malloc stack (intBytes (-2) ++ stream) =
      .instanceDisconnected
        (recvPackageVariable malloc stack.nameSize false stream).memory := by
  have hstate : Int.bmod (ofLittleEndian (intBytes (-2))) (2 ^ 32) = -2 := by decide
  rw [receiveAndPrintKeyStatus, recvPackage_keyState]
  simp only [Option.getD_some, hstate, if_neg (show ¬ recvSuccess = 0 by decide), if_true]

theorem receiveAndPrintKeyStatus_assigned (malloc : Malloc) (stack : Uninitialized)
    (stream : List UInt8) :
    receiveAndPrintKeyStatus malloc stack (intBytes 1 ++ stream) =
      .assigned
        (recvPackageVariable malloc stack.valueSize false
          (recvPackageVariable malloc stack.nameSize false stream).rest).memory
        (recvPackageVariable malloc stack.nameSize false stream).memory := by
  have hstate : Int.bmod (ofLittleEndian (intBytes 1)) (2 ^ 32) = 1 := by decide
  rw [receiveAndPrintKeyStatus, recvPackage_keyState]
  simp only [Option.getD_some, hstate, if_neg (show ¬ recvSuccess = 0 by decide),
    if_neg (show ¬ (1 : ℤ) = -2 by decide), if_neg (show ¬ (1 : ℤ) = -1 by decide),
    if_neg (show ¬ (1 : ℤ) = 0 by decide), if_true]

/-- **No message that ends too early is noticed.** -/
theorem truncationUnnoticed (malloc : Malloc) (stack : Uninitialized)
    (htruncated : Truncated stream) : TruncationUnnoticed malloc stack stream where
  unrecognised := code_recvPackageVariable_ne_zero malloc stack.nameSize stream
  inquired := ⟨_, if_neg (code_recvPackageVariable_ne_zero malloc stack.nameSize stream),
    unreceived_recvPackageVariable stack.length_nameSize htruncated⟩
  disconnected := ⟨_, receiveAndPrintKeyStatus_disconnected malloc stack stream,
    unreceived_recvPackageVariable stack.length_nameSize htruncated⟩
  name := ⟨_, _, receiveAndPrintKeyStatus_assigned malloc stack stream,
    unreceived_recvPackageVariable stack.length_nameSize htruncated⟩
  value name hmost hserves := by
    obtain ⟨fresh, hfresh⟩ := Option.isSome_iff_exists.mp hserves
    have hname := recvPackageVariable_append stack.length_nameSize hmost hfresh stream
    have hprinted := receiveAndPrintKeyStatus_assigned malloc stack
      (sizeBytes name.length ++ name ++ stream)
    rw [hname] at hprinted
    exact ⟨_, hprinted, unreceived_recvPackageVariable stack.length_valueSize htruncated⟩

/-- **Truncated messages are never detected**, wherever they end. -/
theorem not_truncationDetected_of_truncated (malloc : Malloc) (stack : Uninitialized)
    (stream : List UInt8) (htruncated : Truncated stream) :
    ¬ TruncationDetected malloc stack stream ∧ TruncationUnnoticed malloc stack stream :=
  ⟨fun hdetected => code_recvPackageVariable_ne_zero malloc stack.nameSize stream
    hdetected.recognised, truncationUnnoticed malloc stack htruncated⟩

/-- Memory that still holds an old key. -/
def usedMemory : Malloc where
  allocate size := some (List.replicate size 107)
  length_allocate hsome := by
    rw [← Option.some.inj hsome, List.length_replicate]

/-- Variables that are zero by chance. -/
def zeroStack : Uninitialized where
  keyState := List.replicate 4 0
  nameSize := List.replicate 8 0
  valueSize := List.replicate 8 0
  length_keyState := rfl
  length_nameSize := rfl
  length_valueSize := rfl

/-- A key of one letter whose terminator is lost: the key that is returned ends in an
old letter. -/
theorem not_truncationDetected_of_truncated_letter :
    receiveInquiredKey usedMemory zeroStack.nameSize (sizeBytes 2 ++ [97]) = some (some [97, 107]) ∧
      ¬ TruncationDetected usedMemory zeroStack (sizeBytes 2 ++ [97]) :=
  ⟨by decide, (not_truncationDetected_of_truncated _ _ _ (by decide)).1⟩

/-- A connection that ends at once. -/
theorem not_truncationDetected :
    ¬ ∀ (malloc : Malloc) (stack : Uninitialized) (stream : List UInt8), Truncated stream →
      TruncationDetected malloc stack stream := by
  intro hclaim
  have hcode : (recvPackageVariable usedMemory zeroStack.nameSize false []).code = -1 ∨
      (recvPackageVariable usedMemory zeroStack.nameSize false []).code = 1 := by decide
  have hdetected := (hclaim usedMemory zeroStack [] (by decide)).recognised
  omega

end SockMyPort.Planificador
