/-
# Packages and chunks

`serializador.c` and `chunker.c`: a package is filled up to a size that is fixed at the
beginning, a chunk grows. Chunks are received through an `int`, which cannot count as
many bytes as a `size_t` can name, and with calls of `recv`, which may have a limit of
their own.
-/

import SockMyPort.Protocolo.Protocolo

namespace SockMyPort.Libs

open SockMyPort.Commons SockMyPort.Protocolo Library

/-! ## Packages -/

/-- `package_t`: what was written, and the room that is left. -/
structure Package where
  load : List UInt8
  size : ℕ
  remainingLoad : ℕ

/-- `create_package`. -/
def createPackage (size : ℕ) : Package := ⟨[], size, size⟩

/-- `add_content`; the program does not survive a write behind the load. -/
def addContent (package : Package) (content : List UInt8) : Option Package :=
  if content.length ≤ package.remainingLoad then
    some { package with
      load := package.load ++ content
      remainingLoad := package.remainingLoad - content.length }
  else none

/-- `add_content_variable`. -/
def addContentVariable (package : Package) (content : List UInt8) : Option Package :=
  (addContent package (sizeBytes content.length)).bind fun sized => addContent sized content

/-- `build_package`, which gives `NULL` for a package that is not full. -/
def buildPackage (package : Package) : Option (List UInt8) :=
  if package.remainingLoad = 0 then some package.load else none

/-- A package of that size holds these bytes. -/
structure Package.Holds (package : Package) (size : ℕ) (bytes : List UInt8) : Prop where
  load : package.load = bytes
  room : package.remainingLoad + bytes.length = size

theorem holds_createPackage (size : ℕ) : (createPackage size).Holds size [] := ⟨rfl, rfl⟩

/-- What fits is added. -/
theorem exists_addContent {package : Package} {size : ℕ} {bytes : List UInt8}
    (content : List UInt8) (hholds : package.Holds size bytes)
    (hroom : (bytes ++ content).length ≤ size) :
    ∃ next, addContent package content = some next ∧ next.Holds size (bytes ++ content) := by
  have hfits := hholds.room
  rw [List.length_append] at hroom
  refine ⟨_, if_pos (by omega), ?_, ?_⟩
  · show package.load ++ content = _
    rw [hholds.load]
  · show package.remainingLoad - content.length + _ = _
    rw [List.length_append]
    omega

theorem exists_addContentVariable {package : Package} {size : ℕ} {bytes : List UInt8}
    (content : List UInt8)
    (hholds : package.Holds size bytes)
    (hroom : (bytes ++ (sizeBytes content.length ++ content)).length ≤ size) :
    ∃ next, addContentVariable package content = some next ∧
      next.Holds size (bytes ++ (sizeBytes content.length ++ content)) := by
  rw [← List.append_assoc] at hroom ⊢
  have hprefix : (bytes ++ sizeBytes content.length).length ≤ size := by
    rw [List.length_append] at hroom
    omega
  obtain ⟨sized, hsized, hholds⟩ := exists_addContent _ hholds hprefix
  obtain ⟨next, hnext, hholds⟩ := exists_addContent _ hholds hroom
  exact ⟨next, by rw [addContentVariable, hsized]; exact hnext, hholds⟩

/-- A full package gives its bytes. -/
theorem buildPackage_eq {package : Package} {bytes : List UInt8}
    (hholds : package.Holds bytes.length bytes) : buildPackage package = some bytes := by
  have hfull := hholds.room
  rw [buildPackage, if_pos (by omega), hholds.load]

/-! ## Chunks -/

/-- `chunk_t`; its size is the length. -/
abbrev Chunk := List UInt8

/-- `chunk_create`. -/
def chunkCreate : Chunk := []

/-- `chunk_add`. -/
def chunkAdd (chunk : Chunk) (content : List UInt8) : Chunk := chunk ++ content

/-- `chunk_add_variable`. -/
def chunkAddVariable (chunk : Chunk) (content : List UInt8) : Chunk :=
  chunkAdd (chunkAdd chunk (sizeBytes content.length)) content

/-- `chunk_add_list`. -/
def chunkAddList {α : Type} (chunk : Chunk) (values : List α) (packager : Chunk → α → Chunk) :
    Chunk :=
  values.foldl packager (chunkAdd chunk (sizeBytes values.length))

/-- `chunk_build`. -/
def chunkBuild (chunk : Chunk) : List UInt8 := chunk

/-- A count of bytes that was stored in an `int` and is compared with a `size_t`. -/
def countedAs (bytes : ℕ) : ℕ := (Int.bmod bytes (2 ^ 32) % 2 ^ 64).toNat

/-- `chunk_send`: the answers of `send`, which are the bytes that it accepted or an error,
give what arrives in the stream and what is returned. -/
def chunkSend : List (Option ℕ) → List UInt8 → Option (List UInt8 × ℤ)
  | [], _ => none
  | none :: _, _ => some ([], -1)
  | some bytesSent :: later, serializedChunk =>
      if countedAs bytesSent < serializedChunk.length then
        (chunkSend later (serializedChunk.drop bytesSent)).map fun (stream, returned) =>
          (serializedChunk.take bytesSent ++ stream, returned)
      else some (serializedChunk.take bytesSent, Int.bmod bytesSent (2 ^ 32))

/-- `chunk_send_and_destroy`. -/
def chunkSendAndDestroy (answers : List (Option ℕ)) (chunk : Chunk) : Option (List UInt8 × ℤ) :=
  chunkSend answers (chunkBuild chunk)

variable {limit : Option ℕ}

/-- `chunk_recv`: what `recv` returns is stored in an `int` before it is compared. -/
def chunkRecv (limit : Option ℕ) (size : ℕ) : Receiver (List UInt8) := do
  let bytes ← receiveWithin limit size
  if countedAs size = size then pure bytes else failure

/-- `chunk_recv` of a `size_t`. -/
def chunkRecvSize (limit : Option ℕ) : Receiver ℕ := ofLittleEndian <$> chunkRecv limit 8

/-- `chunk_recv_variable`. -/
def chunkRecvVariable (limit : Option ℕ) : Receiver (List UInt8) := do
  let size ← chunkRecvSize limit
  chunkRecv limit size

/-- `chunk_recv_list`. -/
def chunkRecvList (limit : Option ℕ) {α : Type} (unpackager : Receiver α) :
    Receiver (List α) := do
  let size ← chunkRecvSize limit
  receiveMany unpackager size

theorem steady_chunkRecv (limit : Option ℕ) (size : ℕ) : Steady (chunkRecv limit size) :=
  steady_bind (steady_receiveWithin limit size) fun bytes =>
    steady_ite (steady_pure bytes) steady_failure

theorem steady_chunkRecvSize : Steady (chunkRecvSize limit) :=
  steady_map _ (steady_chunkRecv limit 8)

theorem steady_chunkRecvVariable : Steady (chunkRecvVariable limit) :=
  steady_bind steady_chunkRecvSize (steady_chunkRecv limit)

theorem steady_chunkRecvList {α : Type} {unpackager : Receiver α} (hsteady : Steady unpackager) :
    Steady (chunkRecvList limit unpackager) :=
  steady_bind steady_chunkRecvSize (steady_receiveMany hsteady)

/-- A size that one call gives and that an `int` can count. -/
structure Countable (limit : Option ℕ) (size : ℕ) : Prop where
  counted : size < 2 ^ 31
  within : ∀ most ∈ limit, size ≤ most

theorem countable_none {size : ℕ} (hcounted : size < 2 ^ 31) : Countable none size where
  counted := hcounted
  within most hmost := by cases hmost

/-- One call gives less than an `int` can count. -/
theorem countable_recvLimit_iff {size : ℕ} : Countable recvLimit size ↔ size ≤ recvMost := by
  constructor
  · intro hcountable
    exact within_recvLimit_iff.mp hcountable.within
  · intro hsize
    exact ⟨lt_of_le_of_lt hsize (by decide), within_recvLimit_iff.mpr hsize⟩

/-- An `int` counts less than half of its values. -/
theorem countedAs_eq_self_iff {size : ℕ} (hmemory : size < 2 ^ 63) :
    countedAs size = size ↔ size < 2 ^ 31 := by
  show (Int.bmod size (2 ^ 32) % 2 ^ 64).toNat = size ↔ _
  have hlow := Int.le_bmod (x := size) (m := 2 ^ 32) (by norm_num)
  have hhigh := Int.bmod_lt (x := size) (m := 2 ^ 32) (by norm_num)
  constructor
  · intro hsame
    generalize Int.bmod size (2 ^ 32) = counted at hlow hhigh hsame
    omega
  · intro hsmall
    rw [Int.bmod_eq_of_le (by omega) (by omega)]
    omega

theorem reads_chunkRecv {size : ℕ} {bytes : List UInt8} (hlength : bytes.length = size)
    (hcountable : Countable limit size) : Reads (chunkRecv limit size) bytes bytes := by
  have hcounted := hcountable.counted
  have hequal := (countedAs_eq_self_iff (by omega)).mpr hcounted
  rw [chunkRecv]
  simp only [if_pos hequal]
  exact (reads_receiveWithin hlength hcountable.within).bind_pure id

theorem refuses_chunkRecv {size : ℕ} (bytes : List UInt8)
    (hlimit : ¬ ∀ most ∈ limit, size ≤ most) : Refuses (chunkRecv limit size) bytes :=
  (refuses_receiveWithin hlimit).bind_last

theorem reads_chunkRecvSize {size : ℕ} (hlimit : Countable limit 8) (hsize : size < 2 ^ 64) :
    Reads (chunkRecvSize limit) (sizeBytes size) size := by
  have hreads := (reads_chunkRecv (length_littleEndian 8 size) hlimit).map ofLittleEndian
  rw [ofLittleEndian_littleEndian, Nat.mod_eq_of_lt (by omega)] at hreads
  exact hreads

theorem reads_chunkRecvVariable {content : List UInt8} (hlimit : Countable limit 8)
    (hcountable : Countable limit content.length) :
    Reads (chunkRecvVariable limit) (sizeBytes content.length ++ content) content := by
  have hcounted := hcountable.counted
  exact (reads_chunkRecvSize hlimit (by omega)).bind (reads_chunkRecv rfl hcountable)

theorem refuses_chunkRecvVariable {content : List UInt8} (hlimit : Countable limit 8)
    (hmemory : content.length < 2 ^ 63) (hlarge : ¬ ∀ most ∈ limit, content.length ≤ most) :
    Refuses (chunkRecvVariable limit) (sizeBytes content.length ++ content) :=
  (reads_chunkRecvSize hlimit (by omega)).refuses_bind (refuses_chunkRecv content hlarge)

theorem reads_chunkRecvList {α β : Type} {encode : α → List UInt8} {view : α → β}
    {unpackager : Receiver β} {values : List α} (hlimit : Countable limit 8)
    (hsize : values.length < 2 ^ 64)
    (hreads : ∀ value ∈ values, Reads unpackager (encode value) (view value)) :
    Reads (chunkRecvList limit unpackager) (sizeBytes values.length ++ values.flatMap encode)
      (values.map view) :=
  (reads_chunkRecvSize hlimit hsize).bind (reads_receiveMany hreads)

end SockMyPort.Libs
