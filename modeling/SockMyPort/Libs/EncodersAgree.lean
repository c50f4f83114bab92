/-
# The two libraries at the ends of one connection

The processes write with packages or with chunks, and read with either library. A
package of the exact size and a chunk hold the same bytes, and they are read alike:
`chunk_recv` stores the result of `recv` in an `int` and `recv_package` does not, but no
call of `recv` gives more than an `int` can count.
-/

import SockMyPort.Libs.ChunkFields
import SockMyPort.Libs.Deserializador

namespace SockMyPort.Libs

open SockMyPort.Commons SockMyPort.Protocolo Library

/-! ## Fields that both libraries have -/

/-- A field of fixed or of variable length. -/
inductive Block where
  | fixed (content : List UInt8)
  | variable (content : List UInt8)
  deriving DecidableEq

/-- What the receiver knows of a block beforehand. -/
inductive BlockKind where
  | fixed (size : ℕ)
  | variable
  deriving DecidableEq

namespace Block

/-- What is in the block. -/
def content : Block → List UInt8
  | .fixed content => content
  | .variable content => content

/-- The call that reads the block. -/
def kind : Block → BlockKind
  | .fixed content => .fixed content.length
  | .variable _ => .variable

/-- The block as a field of a chunk. -/
def field : Block → Field
  | .fixed content => .fixed content
  | .variable content => .variable content

/-- The bytes of the block, with its size if it needs one. -/
def size : Block → ℕ
  | .fixed content => content.length
  | .variable content => 8 + content.length

theorem length_bytes_field (block : Block) : block.field.bytes.length = block.size := by
  cases block with
  | fixed content => rfl
  | «variable» content =>
      show (variableBytes content).length = 8 + content.length
      rw [variableBytes, List.length_append, length_sizeBytes]

end Block

/-! ## Writing -/

/-- The call of `add_content` or `add_content_variable`. -/
def addBlock (package : Package) : Block → Option Package
  | .fixed content => addContent package content
  | .variable content => addContentVariable package content

/-- `create_package` of the exact size, the calls for the blocks and `build_package`. -/
def packageOf (blocks : List Block) : Option (List UInt8) := do
  let package ← blocks.foldlM addBlock (createPackage (blocks.map Block.size).sum)
  buildPackage package

/-- `chunk_create`, the calls for the blocks and `chunk_build`. -/
def builtChunk (blocks : List Block) : List UInt8 := chunkBuild (chunkOf (blocks.map Block.field))

/-- What is still to be added fits. -/
theorem exists_foldlM_addBlock {package : Package} {size : ℕ} {bytes : List UInt8}
    (blocks : List Block) (hholds : package.Holds size bytes)
    (hroom : bytes.length + (blocks.map Block.size).sum ≤ size) :
    ∃ next, blocks.foldlM addBlock package = some next ∧
      next.Holds size (bytes ++ blocks.flatMap fun block => block.field.bytes) := by
  induction blocks generalizing package bytes with
  | nil => exact ⟨package, rfl, by rwa [List.flatMap_nil, List.append_nil]⟩
  | cons block blocks ih =>
      rw [List.map_cons, List.sum_cons, ← block.length_bytes_field] at hroom
      have hfits : (bytes ++ block.field.bytes).length ≤ size := by
        rw [List.length_append]
        omega
      have hadd : ∃ added, addBlock package block = some added ∧
          added.Holds size (bytes ++ block.field.bytes) := by
        cases block with
        | fixed content => exact exists_addContent content hholds hfits
        | «variable» content => exact exists_addContentVariable content hholds hfits
      obtain ⟨added, hadded, hholds'⟩ := hadd
      have hrest : (bytes ++ block.field.bytes).length + (blocks.map Block.size).sum ≤ size := by
        rw [List.length_append]
        omega
      obtain ⟨next, hnext, hfull⟩ := ih hholds' hrest
      refine ⟨next, ?_, ?_⟩
      · rw [List.foldlM_cons, hadded]
        exact hnext
      · rwa [List.flatMap_cons, ← List.append_assoc]

/-- The bytes of a chunk of blocks. -/
theorem builtChunk_eq (blocks : List Block) :
    builtChunk blocks = blocks.flatMap fun block => block.field.bytes := by
  show chunkOf (blocks.map Block.field) = _
  rw [chunkOf_eq, List.flatMap_map]

theorem length_builtChunk (blocks : List Block) :
    (builtChunk blocks).length = (blocks.map Block.size).sum := by
  rw [builtChunk_eq, List.length_flatMap]
  simp only [Block.length_bytes_field]

/-- **A package of the exact size is the chunk.** -/
theorem packageOf_eq (blocks : List Block) : packageOf blocks = some (builtChunk blocks) := by
  obtain ⟨package, hpackage, hholds⟩ := exists_foldlM_addBlock blocks
    (holds_createPackage (blocks.map Block.size).sum) (by rw [List.length_nil, Nat.zero_add])
  rw [List.nil_append, ← builtChunk_eq, ← length_builtChunk] at hholds
  rw [packageOf, hpackage]
  exact buildPackage_eq hholds

/-! ## Reading -/

/-- `chunk_recv` of a call that is not interrupted, with the memory that it fills. The
result of `recv` is stored in an `int` before it is compared as a `size_t`. -/
def recvChunk (receiver : Option (List UInt8)) (size : ℕ) (stream : List UInt8) : Reception :=
  let (received, memory, rest) := recv receiver size stream
  let bytesReceived := Int.bmod received (2 ^ 32)
  ⟨if bytesReceived % 2 ^ 64 = size then bytesReceived else -1, memory, rest⟩

/-- `chunk_recv_variable` with the memory that it fills, given what its variable for the
size holds before it is set. -/
def recvChunkVariable (malloc : Malloc) (packageSize stream : List UInt8) : Reception :=
  let sized := recvChunk (some packageSize) 8 stream
  if sized.code % 2 ^ 64 ≠ 8 then ⟨-1, none, sized.rest⟩
  else
    let size := ofLittleEndian (sized.memory.getD [])
    let data := recvChunk (malloc.allocate size) size sized.rest
    if data.code % 2 ^ 64 ≠ size then ⟨-1, data.memory, data.rest⟩
    else ⟨Int.bmod (sized.code + data.code) (2 ^ 32), data.memory, data.rest⟩

/-- The field that a call has received, if its code says so, and the rest of the stream.
Nothing fits in `NULL`. -/
def Reception.outcome (reception : Reception) (success : ℤ → Bool) :
    Option (List UInt8) × List UInt8 :=
  (if success reception.code then some (reception.memory.getD []) else none, reception.rest)

/-- `RECV_SUCCESS` is the only code of a success. -/
def packageSuccess (code : ℤ) : Bool := code = recvSuccess

/-- -1 is the only code of an error. -/
def chunkSuccess (code : ℤ) : Bool := code ≠ -1

/-- The call of `recv_package` into a variable, or of `recv_package_variable`. -/
def recvBlockPackage (malloc : Malloc) (packageSize : List UInt8) :
    BlockKind → List UInt8 → Option (List UInt8) × List UInt8
  | .fixed size, stream =>
      (recvPackage (some (List.replicate size 0)) size stream).outcome packageSuccess
  | .variable, stream =>
      (recvPackageVariable malloc packageSize false stream).outcome packageSuccess

/-- The call of `chunk_recv` into a variable, or of `chunk_recv_variable`. -/
def recvBlockChunk (malloc : Malloc) (packageSize : List UInt8) :
    BlockKind → List UInt8 → Option (List UInt8) × List UInt8
  | .fixed size, stream =>
      (recvChunk (some (List.replicate size 0)) size stream).outcome chunkSuccess
  | .variable, stream => (recvChunkVariable malloc packageSize stream).outcome chunkSuccess

/-- What is read from a stream: the fields before a call that fails, whether none does,
and the rest of the stream. -/
structure Transcript where
  contents : List (List UInt8)
  complete : Bool
  rest : List UInt8
  deriving DecidableEq

/-- The blocks are received one after another, until a call fails. -/
def recvBlocks (recvBlock : BlockKind → List UInt8 → Option (List UInt8) × List UInt8) :
    List BlockKind → List UInt8 → Transcript
  | [], stream => ⟨[], true, stream⟩
  | kind :: kinds, stream =>
      match recvBlock kind stream with
      | (none, rest) => ⟨[], false, rest⟩
      | (some content, rest) =>
          let later := recvBlocks recvBlock kinds rest
          ⟨content :: later.contents, later.complete, later.rest⟩

/-! ## One call -/

/-- The memory that is needed to receive a block can be allocated. -/
abbrev Malloc.Serves (malloc : Malloc) (block : Block) : Prop :=
  (malloc.allocate block.content.length).isSome

variable {receiver : Option (List UInt8)} {packageSize content : List UInt8}
  {size : ℕ}

/-- What a call of `recv` returns fits in an `int`. -/
theorem received_mem (receiver : Option (List UInt8)) (size : ℕ) (stream : List UInt8) :
    -1 ≤ (recv receiver size stream).1 ∧ (recv receiver size stream).1 ≤ recvMost := by
  cases receiver with
  | none =>
      simp only [recv]
      split <;> decide
  | some memory =>
      simp only [recv, List.length_take]
      omega

/-- **The `int` loses nothing**: `chunk_recv` succeeds where `recv_package` does, and fills
the same memory. -/
theorem recvChunk_eq (receiver : Option (List UInt8)) (hsize : size < 2 ^ 63)
    (stream : List UInt8) :
    recvChunk receiver size stream =
      ⟨if (recvPackage receiver size stream).code = recvSuccess then (size : ℤ) else -1,
        (recvPackage receiver size stream).memory, (recvPackage receiver size stream).rest⟩ := by
  have hbounds := received_mem receiver size stream
  have hmost : (recvMost : ℤ) < 2 ^ 31 := by decide
  rcases hrecv : recv receiver size stream with ⟨received, memory, rest⟩
  rw [hrecv] at hbounds
  simp only [recvChunk, recvPackage, hrecv]
  rw [Int.bmod_eq_of_le (by omega) (by omega)]
  by_cases hequal : received % 2 ^ 64 = size
  · obtain rfl : received = size := by omega
    simp only [hequal, decide_true, if_true]
  · have hcode : recvDataError ≠ recvSuccess := by decide
    simp only [hequal, decide_false, Bool.false_eq_true, if_false, if_neg hcode]

/-- A call that succeeds was not asked for more than its limit. -/
theorem le_recvMost_of_recvPackage {stream : List UInt8} (hsize : size < 2 ^ 63)
    (hsuccess : (recvPackage receiver size stream).code = recvSuccess) : size ≤ recvMost := by
  have hbounds := received_mem receiver size stream
  rcases hrecv : recv receiver size stream with ⟨received, memory, rest⟩
  rw [hrecv] at hbounds
  simp only [recvPackage, hrecv] at hsuccess
  by_cases hequal : received % 2 ^ 64 = size
  · omega
  · simp only [hequal, decide_false, Bool.false_eq_true, if_false] at hsuccess
    exact absurd hsuccess (by decide)

/-- What is received of a fixed field does not depend on the library. -/
theorem outcome_recvChunk (receiver : Option (List UInt8)) (hsize : size < 2 ^ 63)
    (stream : List UInt8) :
    (recvChunk receiver size stream).outcome chunkSuccess =
      (recvPackage receiver size stream).outcome packageSuccess := by
  rw [recvChunk_eq receiver hsize]
  by_cases hsuccess : (recvPackage receiver size stream).code = recvSuccess
  · have hcode : chunkSuccess size = true := decide_eq_true (by omega)
    simp only [Reception.outcome, packageSuccess, hsuccess, if_true, hcode, decide_true]
  · have hcode : chunkSuccess (-1) = false := by decide
    simp only [Reception.outcome, packageSuccess, hsuccess, if_false, hcode, decide_false]

/-- What a receiver sees of a call: the field and the rest, if it succeeds. -/
def ofOutcome : Option (List UInt8) × List UInt8 → Option (List UInt8 × List UInt8)
  | (some content, rest) => some (content, rest)
  | (none, _) => none

/-- **The receivers of the wire** are the calls that succeed. -/
theorem chunkRecv_recvLimit_eq {memory : List UInt8} (hmemory : memory.length = size)
    (hsize : size < 2 ^ 63) (stream : List UInt8) :
    chunkRecv recvLimit size stream =
      ofOutcome ((recvChunk (some memory) size stream).outcome chunkSuccess) := by
  rw [outcome_recvChunk _ hsize]
  by_cases hmost : size ≤ recvMost
  · by_cases hroom : size ≤ stream.length
    · obtain ⟨message, rest, rfl, hmessage⟩ : ∃ message rest, stream = message ++ rest ∧
          message.length = size :=
        ⟨stream.take size, stream.drop size, (List.take_append_drop ..).symm,
          List.length_take_of_le hroom⟩
      rw [reads_chunkRecv hmessage (countable_recvLimit_iff.mpr hmost) rest,
        recvPackage_append hmemory hmessage hmost rest]
      rfl
    · have hshort : ¬ ((stream.take (min size recvMost)).length : ℤ) % 2 ^ 64 = size := by
        rw [List.length_take]
        omega
      have hfailed : packageSuccess recvDataError = false := by decide
      have hreceive : chunkRecv recvLimit size stream = none := by
        rw [chunkRecv, receiveWithin, if_pos (within_recvLimit_iff.mpr hmost)]
        show (receive size stream).bind _ = none
        rw [receive, if_neg hroom]
        rfl
      simp only [hreceive, recvPackage, recv, hshort, Reception.outcome, decide_false,
        Bool.false_eq_true, if_false, hfailed, ofOutcome]
  · have hrefused := refuses_chunkRecv stream (mt within_recvLimit_iff.mp hmost) []
    have hfailed : ¬ (recvPackage (some memory) size stream).code = recvSuccess :=
      mt (le_recvMost_of_recvPackage hsize) hmost
    rw [List.append_nil] at hrefused
    simp only [hrefused, Reception.outcome, packageSuccess, hfailed, decide_false,
      Bool.false_eq_true, if_false, ofOutcome]

/-- What is received of a variable field does not depend on the library either. -/
theorem outcome_recvChunkVariable (malloc : Malloc) (hpackage : packageSize.length = 8)
    (hsize : size < 2 ^ 63) (stream : List UInt8) :
    (recvChunkVariable malloc packageSize (sizeBytes size ++ stream)).outcome chunkSuccess =
      (recvPackage (malloc.allocate size) size stream).outcome packageSuccess := by
  have hsized : recvChunk (some packageSize) 8 (sizeBytes size ++ stream) =
      ⟨8, some (sizeBytes size), stream⟩ := by
    rw [recvChunk_eq _ (by decide),
      recvPackage_append hpackage (length_sizeBytes size) (by decide) stream]
    rfl
  have hread : ofLittleEndian (sizeBytes size) = size := by
    rw [sizeBytes, ofLittleEndian_littleEndian]
    exact Nat.mod_eq_of_lt (lt_trans hsize (by decide))
  have height : ¬ (8 : ℤ) % 2 ^ 64 ≠ 8 := by decide
  simp only [recvChunkVariable, hsized, Option.getD_some, hread, if_neg height]
  rw [← outcome_recvChunk _ hsize, recvChunk_eq _ hsize]
  by_cases hsuccess : (recvPackage (malloc.allocate size) size stream).code = recvSuccess
  · have hmost := le_recvMost_of_recvPackage hsize hsuccess
    unfold recvMost at hmost
    have hcounted : ¬ (size : ℤ) % 2 ^ 64 ≠ size := by omega
    have hreturned : Int.bmod (8 + size) (2 ^ 32) = 8 + size :=
      Int.bmod_eq_of_le (by omega) (by omega)
    have hcode : chunkSuccess size = true := decide_eq_true (by omega)
    have hcode' : chunkSuccess (8 + size) = true := decide_eq_true (by omega)
    simp only [if_pos hsuccess, if_neg hcounted, hreturned, Reception.outcome, hcode, hcode']
  · have hcounted : (-1 : ℤ) % 2 ^ 64 ≠ size := by omega
    simp only [if_neg hsuccess, if_pos hcounted]

variable {block : Block}

/-- The call of `recv_package` that receives the content of a block. -/
theorem recvBlockPackage_eq (malloc : Malloc) (hpackage : packageSize.length = 8)
    (hmemory : block.content.length < 2 ^ 63) (rest : List UInt8) :
    ∃ receiver : Option (List UInt8), (∀ memory, receiver = some memory →
        memory.length = block.content.length) ∧
      (malloc.Serves block → receiver.isSome) ∧
      recvBlockPackage malloc packageSize block.kind (block.field.bytes ++ rest) =
        (recvPackage receiver block.content.length (block.content ++ rest)).outcome
          packageSuccess ∧
      recvBlockChunk malloc packageSize block.kind (block.field.bytes ++ rest) =
        (recvPackage receiver block.content.length (block.content ++ rest)).outcome
          packageSuccess := by
  cases block with
  | fixed content =>
      refine ⟨some (List.replicate content.length 0), fun memory hsame => ?_, fun _ => rfl, rfl,
        outcome_recvChunk _ hmemory _⟩
      rw [← Option.some.inj hsame, List.length_replicate]
      rfl
  | «variable» content =>
      have hmemory' : content.length < 2 ^ 63 := hmemory
      have hbytes : (Block.variable content).field.bytes ++ rest =
          sizeBytes content.length ++ (content ++ rest) := List.append_assoc ..
      have hchunk := outcome_recvChunkVariable malloc hpackage hmemory' (content ++ rest)
      have hpackage := recvPackageVariable_sized malloc hpackage (lt_trans hmemory' (by decide))
        (content ++ rest)
      rw [hbytes]
      exact ⟨malloc.allocate content.length, fun memory hsame => malloc.length_allocate hsame, id,
        congrArg (fun reception : Reception => reception.outcome packageSuccess) hpackage, hchunk⟩

/-- A call that succeeds gives the content and leaves what follows. -/
theorem outcome_recvPackage_cases {content : List UInt8} (hmemory : content.length < 2 ^ 63)
    (hlength : ∀ memory, receiver = some memory → memory.length = content.length)
    (rest : List UInt8) :
    let outcome := (recvPackage receiver content.length (content ++ rest)).outcome packageSuccess
    (outcome = (some content, rest) ∨ ∃ left, outcome = (none, left)) ∧
      (content.length ≤ recvMost → receiver.isSome → outcome = (some content, rest)) := by
  intro outcome
  by_cases hsuccess : (recvPackage receiver content.length (content ++ rest)).code = recvSuccess
  · have hmost := le_recvMost_of_recvPackage hmemory hsuccess
    have houtcome : outcome = (some content, rest) := by
      cases receiver with
      | none =>
          -- nothing was received through `NULL`, so nothing was asked for
          cases content with
          | nil => rfl
          | cons byte content =>
              have hfailed : (recv none (content.length + 1) (byte :: content ++ rest)).1 = -1 :=
                by simp [recv]
              have hcode : ¬ (-1 : ℤ) % 2 ^ 64 = (content.length + 1 : ℕ) := by
                rw [List.length_cons] at hmemory
                omega
              simp only [recvPackage, List.length_cons, hfailed, decide_eq_false hcode] at hsuccess
              exact absurd hsuccess (by decide)
      | some memory =>
          show Reception.outcome (recvPackage _ _ _) _ = _
          rw [recvPackage_append (hlength memory rfl) rfl hmost rest]
          rfl
    exact ⟨.inl houtcome, fun _ _ => houtcome⟩
  · have houtcome : outcome =
        (none, (recvPackage receiver content.length (content ++ rest)).rest) := by
      simp only [outcome, Reception.outcome, packageSuccess, hsuccess, decide_false,
        Bool.false_eq_true, if_false]
    refine ⟨.inr ⟨_, houtcome⟩, fun hmost hsome => ?_⟩
    obtain ⟨memory, rfl⟩ := Option.isSome_iff_exists.mp hsome
    rw [recvPackage_append (hlength memory rfl) rfl hmost rest] at hsuccess
    exact absurd rfl hsuccess

/-- **A block** is read by both libraries or stops both of them. -/
theorem recvBlock_cases (malloc : Malloc) (hpackage : packageSize.length = 8)
    (hmemory : block.content.length < 2 ^ 63) (rest : List UInt8) :
    ∃ result : Option (List UInt8) × List UInt8,
      recvBlockPackage malloc packageSize block.kind (block.field.bytes ++ rest) = result ∧
      recvBlockChunk malloc packageSize block.kind (block.field.bytes ++ rest) = result ∧
      (result = (some block.content, rest) ∨ ∃ left, result = (none, left)) ∧
      (block.content.length ≤ recvMost → malloc.Serves block →
        result = (some block.content, rest)) := by
  obtain ⟨receiver, hlength, hserved, hpackages, hchunks⟩ :=
    recvBlockPackage_eq malloc hpackage hmemory rest
  obtain ⟨hcases, hwhole⟩ := outcome_recvPackage_cases hmemory hlength rest
  exact ⟨_, hpackages, hchunks, hcases, fun hmost hserves => hwhole hmost (hserved hserves)⟩

/-! ## The result -/

/-- The two libraries write the same buffers, and out of a stream of such buffers they
read the same fields, which are fields that were written, and leave the same rest. They
read the stream as a whole if no field is larger than what one call gives and there is
memory for all of them. -/
structure EncodersAgree (malloc : Malloc) (packageSize : List UInt8)
    (buffers : List (List Block)) : Prop where
  written : ∀ blocks ∈ buffers, packageOf blocks = some (builtChunk blocks)
  read : ∀ rest : List UInt8,
    recvBlocks (recvBlockChunk malloc packageSize) (buffers.flatten.map Block.kind)
        (buffers.flatMap builtChunk ++ rest) =
      recvBlocks (recvBlockPackage malloc packageSize) (buffers.flatten.map Block.kind)
        (buffers.flatMap builtChunk ++ rest)
  fields : ∀ rest : List UInt8,
    (recvBlocks (recvBlockChunk malloc packageSize) (buffers.flatten.map Block.kind)
      (buffers.flatMap builtChunk ++ rest)).contents <+: buffers.flatten.map Block.content
  whole : (∀ blocks ∈ buffers, ∀ block ∈ blocks,
      block.content.length ≤ recvMost ∧ malloc.Serves block) → ∀ rest : List UInt8,
    recvBlocks (recvBlockChunk malloc packageSize) (buffers.flatten.map Block.kind)
      (buffers.flatMap builtChunk ++ rest) = ⟨buffers.flatten.map Block.content, true, rest⟩

theorem flatMap_builtChunk (buffers : List (List Block)) :
    buffers.flatMap builtChunk = buffers.flatten.flatMap fun block => block.field.bytes := by
  induction buffers with
  | nil => rfl
  | cons blocks buffers ih =>
      rw [List.flatMap_cons, ih, builtChunk_eq, List.flatten_cons, List.flatMap_append]

/-- Blocks are read by both libraries up to the same one. -/
theorem recvBlocks_agree (malloc : Malloc) {blocks : List Block}
    (hpackage : packageSize.length = 8)
    (hmemory : ∀ block ∈ blocks, block.content.length < 2 ^ 63) (rest : List UInt8) :
    ∃ transcript : Transcript,
      recvBlocks (recvBlockPackage malloc packageSize) (blocks.map Block.kind)
        ((blocks.flatMap fun block => block.field.bytes) ++ rest) = transcript ∧
      recvBlocks (recvBlockChunk malloc packageSize) (blocks.map Block.kind)
        ((blocks.flatMap fun block => block.field.bytes) ++ rest) = transcript ∧
      transcript.contents <+: blocks.map Block.content ∧
      ((∀ block ∈ blocks, block.content.length ≤ recvMost ∧ malloc.Serves block) →
        transcript = ⟨blocks.map Block.content, true, rest⟩) := by
  induction blocks with
  | nil => exact ⟨⟨[], true, rest⟩, rfl, rfl, List.prefix_rfl, fun _ => rfl⟩
  | cons block blocks ih =>
      obtain ⟨later, hpackages, hchunks, hprefix, hlater⟩ :=
        ih fun other hmem => hmemory other (List.mem_cons_of_mem _ hmem)
      obtain ⟨result, hpackageCall, hchunkCall, hcases, hresult⟩ :=
        recvBlock_cases malloc hpackage (hmemory block List.mem_cons_self)
          ((blocks.flatMap fun block => block.field.bytes) ++ rest)
      rw [List.flatMap_cons, List.append_assoc, List.map_cons, List.map_cons, recvBlocks,
        recvBlocks, hpackageCall, hchunkCall]
      rcases hcases with rfl | ⟨left, rfl⟩
      · refine ⟨⟨block.content :: later.contents, later.complete, later.rest⟩, ?_, ?_, ?_, ?_⟩
        · simp only [hpackages]
        · simp only [hchunks]
        · exact List.cons_prefix_cons.mpr ⟨rfl, hprefix⟩
        · intro hall
          rw [hlater fun other hmem => hall other (List.mem_cons_of_mem _ hmem)]
      · refine ⟨⟨[], false, left⟩, rfl, rfl, List.nil_prefix, fun hall => ?_⟩
        obtain ⟨hmost, hserves⟩ := hall block List.mem_cons_self
        cases hresult hmost hserves

/-- **The two encoders agree** on every sequence of fields. -/
theorem encodersAgree (malloc : Malloc) (packageSize : List UInt8) (buffers : List (List Block))
    (hpackage : packageSize.length = 8)
    (hmemory : ∀ blocks ∈ buffers, ∀ block ∈ blocks, block.content.length < 2 ^ 63) :
    EncodersAgree malloc packageSize buffers := by
  have hall : ∀ block ∈ buffers.flatten, block.content.length < 2 ^ 63 := by
    intro block hmem
    obtain ⟨blocks, hblocks, hblock⟩ := List.mem_flatten.mp hmem
    exact hmemory blocks hblocks block hblock
  refine ⟨fun blocks _ => packageOf_eq blocks, fun rest => ?_, fun rest => ?_,
    fun hwhole rest => ?_⟩
  all_goals
    obtain ⟨transcript, hpackages, hchunks, hprefix, hcomplete⟩ :=
      recvBlocks_agree malloc hpackage hall rest
    rw [flatMap_builtChunk, hchunks]
  · rw [hpackages]
  · exact hprefix
  · apply hcomplete
    intro block hmem
    obtain ⟨blocks, hblocks, hblock⟩ := List.mem_flatten.mp hmem
    exact hwhole blocks hblocks block hblock

/-- Memory that is always there, and cleared. -/
def clearedMemory : Malloc where
  allocate size := some (List.replicate size 0)
  length_allocate hsome := by
    rw [← Option.some.inj hsome, List.length_replicate]

/-- A number and a name, and an empty name, with a byte that follows. -/
theorem encodersAgree_two :
    recvBlocks (recvBlockChunk clearedMemory (List.replicate 8 255))
        [.fixed 4, .variable, .variable]
        ([[Block.fixed [1, 2, 3, 4], .variable [97, 0]], [.variable []]].flatMap builtChunk
          ++ [9]) =
      ⟨[[1, 2, 3, 4], [97, 0], []], true, [9]⟩ :=
  (encodersAgree clearedMemory (List.replicate 8 255)
    [[.fixed [1, 2, 3, 4], .variable [97, 0]], [.variable []]] (by decide) (by decide)).whole
      (by decide) [9]

end SockMyPort.Libs
