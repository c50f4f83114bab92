/-
# Receiving into memory

`deserializador.c`. A call of `recv` fills the front of a buffer with what there is
until the connection ends or its limit is reached, and the rest of the buffer keeps what
was in it. Neither
function compares with the codes that the other one returns: `recv_package` gives a
negative code for an error, and `recv_package_variable` takes only zero for one.
-/

import SockMyPort.Protocolo.Protocolo

namespace SockMyPort.Libs

open SockMyPort.Commons SockMyPort.Protocolo Library

/-! ## Memory -/

/-- `malloc`: new memory, with anything in it, or `NULL`. -/
structure Malloc where
  allocate : ℕ → Option (List UInt8)
  length_allocate : ∀ {size : ℕ} {memory : List UInt8}, allocate size = some memory →
    memory.length = size

/-- `recv` with `MSG_WAITALL` on a stream that ends with the connection: what is
returned, the memory afterwards and the rest of the stream. No call gives more than its
limit, and nothing can be written through `NULL`. -/
def recv : Option (List UInt8) → ℕ → List UInt8 → ℤ × Option (List UInt8) × List UInt8
  | some memory, size, stream =>
      let asked := min size recvMost
      let received := stream.take asked
      (received.length, some (received ++ memory.drop received.length), stream.drop asked)
  | none, size, stream => (if size = 0 ∨ stream = [] then 0 else -1, none, stream)

/-! ## The functions -/

/-- `RECV_SUCCESS`. -/
def recvSuccess : ℤ := 1

/-- `RECV_DATA_ERROR`. -/
def recvDataError : ℤ := -1

/-- `RECV_SIZE_ERROR`. -/
def recvSizeError : ℤ := -2

/-- `RECV_MALLOC_ERROR`. -/
def recvMallocError : ℤ := -3

/-- What a receiving function returns, the memory that it filled and the rest of the
stream. -/
structure Reception where
  code : ℤ
  memory : Option (List UInt8)
  rest : List UInt8

/-- `recv_package`. The result of `recv` is compared as a `size_t`. -/
def recvPackage (receiver : Option (List UInt8)) (size : ℕ) (stream : List UInt8) : Reception :=
  let (received, memory, rest) := recv receiver size stream
  let success : Bool := received % 2 ^ 64 = size
  ⟨if success then recvSuccess else recvDataError, memory, rest⟩

/-- `recv_package_variable`, given what its variable for the size holds before it is
set and whether the address `receiver` is null, which is tested instead of what was
allocated. -/
def recvPackageVariable (malloc : Malloc) (packageSize : List UInt8) (receiverIsNull : Bool)
    (stream : List UInt8) : Reception :=
  let sized := recvPackage (some packageSize) 8 stream
  if sized.code = 0 then ⟨recvSizeError, none, sized.rest⟩
  else
    let size := ofLittleEndian (sized.memory.getD [])
    let receiver := malloc.allocate size
    if receiverIsNull then ⟨recvMallocError, receiver, sized.rest⟩
    else recvPackage receiver size sized.rest

/-! ## What they do -/

variable {malloc : Malloc} {memory packageSize stream message : List UInt8} {size : ℕ}

/-- A call returns one of two codes, and neither is zero. -/
theorem code_recvPackage_ne_zero (receiver : Option (List UInt8)) (size : ℕ)
    (stream : List UInt8) : (recvPackage receiver size stream).code ≠ 0 := by
  simp only [recvPackage]
  split <;> decide

/-- What is there as a whole fills the buffer. -/
theorem recvPackage_append (hmemory : memory.length = size) (hmessage : message.length = size)
    (hsize : size ≤ recvMost) (rest : List UInt8) :
    recvPackage (some memory) size (message ++ rest) = ⟨recvSuccess, some message, rest⟩ := by
  have hasked : min size recvMost = size := Nat.min_eq_left hsize
  unfold recvMost at hsize
  have htake : (message ++ rest).take size = message := List.take_left' hmessage
  have hdrop : (message ++ rest).drop size = rest := List.drop_left' hmessage
  have hcounted : ((message.length : ℕ) : ℤ) % 2 ^ 64 = size := by omega
  have hfull : memory.drop message.length = [] := List.drop_eq_nil_of_le (by omega)
  simp only [recvPackage, recv, hasked, htake, hdrop, hcounted, hfull, List.append_nil, decide_true,
    if_true]

/-- The memory begins with what was received and goes on as it was. -/
theorem memory_recvPackage (memory : List UInt8) (size : ℕ) (stream : List UInt8) :
    (recvPackage (some memory) size stream).memory =
      some (stream.take (min size recvMost) ++
        memory.drop (stream.take (min size recvMost)).length) := rfl

/-- The length of the memory stays. -/
theorem length_memory_recvPackage {bytes : List UInt8} (hmemory : memory.length = size)
    (hbytes : (recvPackage (some memory) size stream).memory = some bytes) :
    bytes.length = size := by
  rw [memory_recvPackage] at hbytes
  rw [← Option.some.inj hbytes, List.length_append, List.length_drop, List.length_take]
  omega

/-- The variable for the size, as far as it was received. -/
def sizeRead (packageSize stream : List UInt8) : ℕ :=
  ofLittleEndian (stream.take 8 ++ packageSize.drop (stream.take 8).length)

/-- **No error stops a package of variable length**: it goes on with the size that its
variable holds. -/
theorem recvPackageVariable_eq (malloc : Malloc) (packageSize stream : List UInt8) :
    recvPackageVariable malloc packageSize false stream =
      recvPackage (malloc.allocate (sizeRead packageSize stream)) (sizeRead packageSize stream)
        (stream.drop 8) := by
  have hcode := code_recvPackage_ne_zero (some packageSize) 8 stream
  simp only [recvPackageVariable, if_neg hcode]
  rfl

theorem sizeRead_of_le (hpackage : packageSize.length = 8) (hlong : 8 ≤ stream.length) :
    sizeRead packageSize stream = ofLittleEndian (stream.take 8) := by
  rw [sizeRead, List.length_take_of_le hlong, List.drop_eq_nil_of_le hpackage.le, List.append_nil]

/-- What was allocated for a message of variable length has the size that was read. -/
theorem length_memory_recvPackageVariable {bytes : List UInt8}
    (hbytes : (recvPackageVariable malloc packageSize false stream).memory = some bytes) :
    bytes.length = sizeRead packageSize stream := by
  rw [recvPackageVariable_eq] at hbytes
  cases hfresh : malloc.allocate (sizeRead packageSize stream) with
  | none =>
      rw [hfresh] at hbytes
      cases hbytes
  | some fresh =>
      rw [hfresh] at hbytes
      exact length_memory_recvPackage (malloc.length_allocate hfresh) hbytes

/-- A size that is there as a whole is the one that memory is asked for. -/
theorem recvPackageVariable_sized (malloc : Malloc) (hpackage : packageSize.length = 8)
    (hsize : size < 2 ^ 64) (stream : List UInt8) :
    recvPackageVariable malloc packageSize false (sizeBytes size ++ stream) =
      recvPackage (malloc.allocate size) size stream := by
  have htake : (sizeBytes size ++ stream).take 8 = sizeBytes size :=
    List.take_left' (length_sizeBytes _)
  have hdrop : (sizeBytes size ++ stream).drop 8 = stream := List.drop_left' (length_sizeBytes _)
  have hread : sizeRead packageSize (sizeBytes size ++ stream) = size := by
    rw [sizeRead, htake, length_sizeBytes, List.drop_eq_nil_of_le hpackage.le, List.append_nil,
      sizeBytes, ofLittleEndian_littleEndian]
    exact Nat.mod_eq_of_lt hsize
  rw [recvPackageVariable_eq, hread, hdrop]

/-- A message that is there as a whole is read as it was sent. -/
theorem recvPackageVariable_append {content fresh : List UInt8} (hpackage : packageSize.length = 8)
    (hcontent : content.length ≤ recvMost) (hfresh : malloc.allocate content.length = some fresh)
    (rest : List UInt8) :
    recvPackageVariable malloc packageSize false (sizeBytes content.length ++ content ++ rest) =
      ⟨recvSuccess, some content, rest⟩ := by
  rw [List.append_assoc, recvPackageVariable_sized malloc hpackage
    (lt_of_le_of_lt hcontent (by decide)), hfresh]
  exact recvPackage_append (malloc.length_allocate hfresh) rfl hcontent rest

end SockMyPort.Libs
