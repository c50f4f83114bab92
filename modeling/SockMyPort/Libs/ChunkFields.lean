/-
# Sequences of fields in a chunk

What is put into a chunk field by field is sent as one buffer, in as many pieces as the
socket likes, and taken out of the stream field by field. The counts and the lengths
travel in the same bytes as the contents, so a field is read by the call of its own kind
only, and a stream that ends early stops exactly one of the calls.
-/

import SockMyPort.Libs.Serializador

namespace SockMyPort.Libs

open SockMyPort.Commons SockMyPort.Protocolo Library

/-! ## Fields -/

/-- What one call adds to a chunk. -/
inductive Field where
  | fixed (content : List UInt8)
  | variable (content : List UInt8)
  | list (contents : List (List UInt8))
deriving DecidableEq

/-- What the receiver of a field knows about it beforehand. -/
inductive FieldKind where
  | fixed (size : ℕ)
  | variable
  | list
deriving DecidableEq

/-- Only the size of a fixed field is known. -/
def Field.kind : Field → FieldKind
  | .fixed content => .fixed content.length
  | .variable _ => .variable
  | .list _ => .list

/-- The call of `chunk_add`, `chunk_add_variable` or `chunk_add_list`. -/
def addField (chunk : Chunk) : Field → Chunk
  | .fixed content => chunkAdd chunk content
  | .variable content => chunkAddVariable chunk content
  | .list contents => chunkAddList chunk contents chunkAddVariable

/-- The fields are added one after another. -/
def chunkOf (fields : List Field) : Chunk := fields.foldl addField chunkCreate

/-- The call of `chunk_recv`, `chunk_recv_variable` or `chunk_recv_list`, where `recv`
gives what it is asked for unless the stream ends. -/
def recvField : FieldKind → Receiver Field
  | .fixed size => Field.fixed <$> chunkRecv none size
  | .variable => Field.variable <$> chunkRecvVariable none
  | .list => Field.list <$> chunkRecvList none (chunkRecvVariable none)

/-- The fields are received one after another. -/
def recvFields : List FieldKind → Receiver (List Field)
  | [] => pure []
  | kind :: kinds => do
      let field ← recvField kind
      let fields ← recvFields kinds
      pure (field :: fields)

/-- What a receiving call returns: the bytes that it took, added up in an `int`, or -1. -/
def returned {α : Type} (receiver : Receiver α) (stream : List UInt8) : ℤ :=
  match receiver stream with
  | some (_, rest) => Int.bmod (stream.length - rest.length) (2 ^ 32)
  | none => -1

/-! ## The bytes of a field -/

/-- A variable block in the stream. -/
def variableBytes (content : List UInt8) : List UInt8 := sizeBytes content.length ++ content

/-- A field in the stream. -/
def Field.bytes : Field → List UInt8
  | .fixed content => content
  | .variable content => variableBytes content
  | .list contents => sizeBytes contents.length ++ contents.flatMap variableBytes

theorem chunkAddVariable_eq (chunk : Chunk) (content : List UInt8) :
    chunkAddVariable chunk content = chunk ++ variableBytes content :=
  List.append_assoc ..

theorem foldl_chunkAddVariable (chunk : Chunk) (contents : List (List UInt8)) :
    contents.foldl chunkAddVariable chunk = chunk ++ contents.flatMap variableBytes := by
  induction contents generalizing chunk with
  | nil => exact (List.append_nil chunk).symm
  | cons content contents ih =>
      rw [List.foldl_cons, ih, chunkAddVariable_eq, List.flatMap_cons, List.append_assoc]

theorem addField_eq (chunk : Chunk) (field : Field) :
    addField chunk field = chunk ++ field.bytes := by
  cases field with
  | fixed content => rfl
  | «variable» content => exact chunkAddVariable_eq chunk content
  | list contents =>
      show contents.foldl chunkAddVariable (chunk ++ sizeBytes contents.length) = _
      rw [foldl_chunkAddVariable, List.append_assoc]
      rfl

theorem foldl_addField (chunk : Chunk) (fields : List Field) :
    fields.foldl addField chunk = chunk ++ fields.flatMap Field.bytes := by
  induction fields generalizing chunk with
  | nil => exact (List.append_nil chunk).symm
  | cons field fields ih =>
      rw [List.foldl_cons, ih, addField_eq, List.flatMap_cons, List.append_assoc]

/-- A chunk holds the bytes of its fields. -/
theorem chunkOf_eq (fields : List Field) : chunkOf fields = fields.flatMap Field.bytes :=
  foldl_addField [] fields

/-! ## Receiving -/

theorem length_le_length_variableBytes (content : List UInt8) :
    content.length ≤ (variableBytes content).length := by
  rw [variableBytes, List.length_append]
  omega

theorem reads_list {contents : List (List UInt8)}
    (hsize : (Field.list contents).bytes.length < 2 ^ 31) :
    Reads (chunkRecvList none (chunkRecvVariable none)) (Field.list contents).bytes contents := by
  rw [Field.bytes, List.length_append] at hsize
  have hcount : contents.length ≤ (contents.flatMap variableBytes).length := by
    apply length_le_length_flatMap
    intro content _ hempty
    have hlength := congrArg List.length hempty
    rw [variableBytes, List.length_append, length_sizeBytes] at hlength
    exact absurd hlength (by simp)
  have hreads : ∀ content ∈ contents,
      Reads (chunkRecvVariable none) (variableBytes content) (id content) := by
    intro content hmem
    refine reads_chunkRecvVariable (countable_none (by decide)) (countable_none ?_)
    have hlength := length_le_length_variableBytes content
    have hpart := (List.sublist_flatten_of_mem
      (List.mem_map_of_mem (f := variableBytes) hmem)).length_le
    rw [← List.flatMap_def] at hpart
    omega
  have hlist := reads_chunkRecvList (countable_none (by decide)) (by omega) hreads
  rw [List.map_id] at hlist
  exact hlist

/-- **A field** is read by the call of its kind, whatever follows. -/
theorem reads_recvField {field : Field} (hsize : field.bytes.length < 2 ^ 31) :
    Reads (recvField field.kind) field.bytes field := by
  cases field with
  | fixed content => exact (reads_chunkRecv rfl (countable_none hsize)).map Field.fixed
  | «variable» content =>
      have hlength := length_le_length_variableBytes content
      have hcountable : Countable none content.length :=
        countable_none (lt_of_le_of_lt hlength hsize)
      exact (reads_chunkRecvVariable (countable_none (by decide)) hcountable).map Field.variable
  | list contents => exact (reads_list hsize).map Field.list

theorem steady_recvField (kind : FieldKind) : Steady (recvField kind) := by
  cases kind with
  | fixed size => exact steady_map _ (steady_chunkRecv none size)
  | «variable» => exact steady_map _ steady_chunkRecvVariable
  | list => exact steady_map _ (steady_chunkRecvList steady_chunkRecvVariable)

/-- A call that reads a field returns its bytes. -/
theorem returned_recvField {field : Field} (hsize : field.bytes.length < 2 ^ 31)
    (rest : List UInt8) :
    returned (recvField field.kind) (field.bytes ++ rest) = field.bytes.length := by
  rw [returned, reads_recvField hsize rest, List.length_append]
  have hlow : -(2 ^ 31 : ℤ) ≤ field.bytes.length := by omega
  have hhigh : (field.bytes.length : ℤ) < 2 ^ 31 := by omega
  show Int.bmod (((field.bytes.length + rest.length : ℕ) : ℤ) - rest.length) (2 ^ 32) = _
  rw [Nat.cast_add, add_sub_cancel_right]
  exact Int.bmod_eq_of_le (by omega) (by omega)

/-- Fields in a stream that are small enough to be counted. -/
theorem small_of_flatMap {fields : List Field}
    (hsize : (fields.flatMap Field.bytes).length < 2 ^ 31) {field : Field} (hmem : field ∈ fields) :
    field.bytes.length < 2 ^ 31 := by
  have hpart :=
    (List.sublist_flatten_of_mem (List.mem_map_of_mem (f := Field.bytes) hmem)).length_le
  rw [← List.flatMap_def] at hpart
  omega

theorem reads_recvFields {fields : List Field}
    (hsmall : ∀ field ∈ fields, field.bytes.length < 2 ^ 31) :
    Reads (recvFields (fields.map Field.kind)) (fields.flatMap Field.bytes) fields := by
  induction fields with
  | nil => exact reads_pure []
  | cons field fields ih =>
      have htail := ih fun other hmem => hsmall other (List.mem_cons_of_mem _ hmem)
      exact (reads_recvField (hsmall field List.mem_cons_self)).bind
        (htail.bind_pure fun fields => field :: fields)

/-- **A stream that ends early** gives the fields that it holds as a whole, and the call
for the next one fails. -/
theorem recvFields_incomplete {fields : List Field} {start missing : List UInt8}
    (hsmall : ∀ field ∈ fields, field.bytes.length < 2 ^ 31)
    (hwhole : start ++ missing = fields.flatMap Field.bytes) (hmissing : missing ≠ []) :
    ∃ before field after left, fields = before ++ field :: after ∧
      recvFields (before.map Field.kind) start = some (before, left) ∧
      recvField field.kind left = none := by
  induction fields generalizing start with
  | nil =>
      obtain ⟨-, hnothing⟩ := List.append_eq_nil_iff.mp hwhole
      exact absurd hnothing hmissing
  | cons field fields ih =>
      have hfield := reads_recvField (hsmall field List.mem_cons_self)
      rw [List.flatMap_cons] at hwhole
      by_cases hlong : field.bytes.length ≤ start.length
      · -- The field is there as a whole.
        obtain ⟨start', rfl⟩ := (List.prefix_of_prefix_length_le
          (List.prefix_append field.bytes _) ⟨missing, hwhole⟩ hlong)
        rw [List.append_assoc] at hwhole
        obtain ⟨before, next, after, left, rfl, hbefore, hnext⟩ :=
          ih (fun other hmem => hsmall other (List.mem_cons_of_mem _ hmem))
            (List.append_cancel_left hwhole)
        refine ⟨field :: before, next, after, left, rfl, ?_, hnext⟩
        show (recvField field.kind (field.bytes ++ start')).bind _ = _
        rw [hfield start']
        show (recvFields (before.map Field.kind) start').bind _ = _
        rw [hbefore]
        rfl
      · -- The stream ends within this field.
        obtain ⟨end', hend⟩ := List.prefix_of_prefix_length_le ⟨missing, hwhole⟩
          (List.prefix_append field.bytes _) (by omega)
        have hend' : end' ≠ [] := by
          intro hnil
          rw [hnil, List.append_nil] at hend
          exact hlong (by rw [hend])
        refine ⟨[], field, fields, start, rfl, rfl, ?_⟩
        apply (steady_recvField field.kind).incomplete field hend'
        exact Or.inl (by rw [hend]; exact hfield)

/-! ## Sending -/

/-- Pieces that add up to the buffer put it into the stream once. -/
theorem chunkSend_of_sum {pieces : List ℕ} {serializedChunk : List UInt8}
    (hsize : serializedChunk.length < 2 ^ 31) (hsome : pieces ≠ [])
    (hsum : pieces.sum = serializedChunk.length) :
    ∃ last : ℤ, 0 ≤ last ∧
      chunkSend (pieces.map some) serializedChunk = some (serializedChunk, last) := by
  induction pieces generalizing serializedChunk with
  | nil => exact absurd rfl hsome
  | cons piece pieces ih =>
      rw [List.sum_cons] at hsum
      have hcounted : countedAs piece = piece := (countedAs_eq_self_iff (by omega)).mpr (by omega)
      rw [List.map_cons, chunkSend, hcounted]
      by_cases hpart : piece < serializedChunk.length
      · have hdrop : (serializedChunk.drop piece).length = pieces.sum := by
          rw [List.length_drop]
          omega
        have hmore : pieces ≠ [] := by
          intro hnil
          rw [hnil, List.sum_nil] at hsum
          omega
        obtain ⟨last, hlast, hsend⟩ := ih (by omega) hmore hdrop.symm
        refine ⟨last, hlast, ?_⟩
        rw [if_pos hpart, hsend]
        show some (serializedChunk.take piece ++ serializedChunk.drop piece, last) = _
        rw [List.take_append_drop]
      · refine ⟨piece, by omega, ?_⟩
        rw [if_neg hpart, List.take_of_length_le (by omega),
          Int.bmod_eq_of_le (by omega) (by omega)]

/-- **The round trip of a chunk.** Whatever pieces the socket accepts, the stream gets the
chunk; whatever follows it there, the calls in the same order obtain the fields and return
their bytes; and where it ends too early, the call that runs out of bytes returns -1. -/
theorem chunk_roundTrip (fields : List Field) (hsize : (chunkOf fields).length < 2 ^ 31) :
    (∀ pieces : List ℕ, pieces ≠ [] → pieces.sum = (chunkOf fields).length →
      ∃ last : ℤ, 0 ≤ last ∧
        chunkSendAndDestroy (pieces.map some) (chunkOf fields) = some (chunkOf fields, last)) ∧
    (∀ rest, recvFields (fields.map Field.kind) (chunkOf fields ++ rest) = some (fields, rest)) ∧
    (∀ field ∈ fields, ∀ rest,
      returned (recvField field.kind) (field.bytes ++ rest) = field.bytes.length) ∧
    ∀ start missing, start ++ missing = chunkOf fields → missing ≠ [] →
      ∃ before field after left, fields = before ++ field :: after ∧
        recvFields (before.map Field.kind) start = some (before, left) ∧
        returned (recvField field.kind) left = -1 := by
  have hsmall : ∀ field ∈ fields, field.bytes.length < 2 ^ 31 := by
    intro field hmem
    rw [chunkOf_eq] at hsize
    exact small_of_flatMap hsize hmem
  refine ⟨fun pieces hsome hsum => chunkSend_of_sum hsize hsome hsum, ?_, ?_, ?_⟩
  · rw [chunkOf_eq]
    exact reads_recvFields hsmall
  · intro field hmem rest
    exact returned_recvField (hsmall field hmem) rest
  · intro start missing hwhole hmissing
    rw [chunkOf_eq] at hwhole
    obtain ⟨before, field, after, left, hfields, hbefore, hfield⟩ :=
      recvFields_incomplete hsmall hwhole hmissing
    exact ⟨before, field, after, left, hfields, hbefore, by rw [returned, hfield]⟩

/-- An empty block, a list of two blocks and a fixed number, sent in three pieces. -/
theorem chunk_roundTrip_three :
    let fields := [Field.variable [], Field.list [[1, 2], []], Field.fixed [7]]
    (∃ last : ℤ, 0 ≤ last ∧ chunkSendAndDestroy ([10, 0, 25].map some) (chunkOf fields) =
      some (chunkOf fields, last)) ∧
    recvFields (fields.map Field.kind) (chunkOf fields ++ [9]) = some (fields, [9]) := by
  have htrip := chunk_roundTrip [Field.variable [], Field.list [[1, 2], []], Field.fixed [7]]
    (by decide)
  exact ⟨htrip.1 [10, 0, 25] (by decide) (by decide), htrip.2.1 [9]⟩

end SockMyPort.Libs
