/-
# The two sides of the wire

Every format is written twice, once for each side. Here the writers of one side meet the
readers of the other one: operations from an ESI to the coordinator, instructions from the
coordinator to an instance, and the replies of the instance. A value is read by one call of
`recv`, which has a limit, and no reader goes on after it.
-/

import SockMyPort.Sistema.EsiWire
import SockMyPort.Coordinador.InstanceMessages
import SockMyPort.Instancia.CoordinatorApi

namespace SockMyPort.Sistema

open SockMyPort.Commons SockMyPort.Protocolo SockMyPort.Libs SockMyPort.Coordinador
  SockMyPort.Instancia Library

/-! ## Instructions -/

/-- What an instance makes of an instruction. -/
def received : Instruction → ReceivedRequest
  | .set isNew key value => .set isNew (keyValueCreate key value)
  | .store key => .store key
  | .compact => .compact
  | .requestValue key => .requestValue key
  | .isAlive => .isAlive

/-- The key of an instruction. -/
def instructionKey : Instruction → Option CString
  | .set _ key _ | .store key | .requestValue key => some key
  | .compact | .isAlive => none

/-- An instruction for a key that the coordinator has accepted, whose value is an object
of the program. -/
structure Issued (instruction : Instruction) : Prop where
  keySize : ∀ key ∈ instructionKey instruction, key.length ≤ 40
  inMemory : ∀ isNew key value, instruction = .set isNew key value → InMemory value

/-- One call of `recv` gives the value of a SET. -/
def ReceivableInstruction (instruction : Instruction) : Prop :=
  ∀ isNew key value, instruction = .set isNew key value → Receivable value

variable {isNew : Bool} {key value : CString} {instruction : Instruction}
  {instructions : List Instruction}

theorem reads_coordinatorApiReceiveHeader (request : RequestCoordinador) :
    Reads coordinatorApiReceiveHeader (enumBytes request.code) request.code := by
  have hlimit : Countable recvLimit 4 := countable_recvLimit_iff.mpr (by decide)
  have hreads := (reads_chunkRecv (length_littleEndian 4 request.code) hlimit).map
    ofLittleEndian
  rw [ofLittleEndian_littleEndian, Nat.mod_eq_of_lt request.code_lt] at hreads
  exact hreads

theorem reads_chunkRecvBool (flag : Bool) : Reads chunkRecvBool (boolBytes flag) flag := by
  have hlength : (boolBytes flag).length = 1 := rfl
  have hlimit : Countable recvLimit 1 := countable_recvLimit_iff.mpr (by decide)
  have hreads := (reads_chunkRecv hlength hlimit).map fun bytes => bytes != [0]
  have hflag : (boolBytes flag != [0]) = flag := by cases flag <;> rfl
  rw [hflag] at hreads
  exact hreads

/-- A call of `recv` gives a `size_t`. -/
theorem countable_sizeOfSize : Countable recvLimit 8 := countable_recvLimit_iff.mpr (by decide)

theorem reads_chunkRecvVariable_string {string : CString} (hreceivable : Receivable string) :
    Reads (chunkRecvVariable recvLimit) (sizedString string) (stringBytes string) := by
  refine reads_chunkRecvVariable countable_sizeOfSize (countable_recvLimit_iff.mpr ?_)
  rw [length_stringBytes]
  exact hreceivable

theorem refuses_chunkRecvVariable_string {string : CString} (hmemory : InMemory string)
    (hlarge : ¬ Receivable string) :
    Refuses (chunkRecvVariable recvLimit) (sizedString string) := by
  apply refuses_chunkRecvVariable countable_sizeOfSize
  · rw [length_stringBytes]
    exact hmemory
  · rw [within_recvLimit_iff, length_stringBytes]
    exact hlarge

/-- A key that the coordinator accepts is received. -/
theorem receivable_of_length_le (hkey : key.length ≤ 40) : Receivable key := by
  unfold Receivable recvMost
  omega

theorem reads_coordinatorApiReceiveKey (hkey : key.length ≤ 40) :
    Reads coordinatorApiReceiveKey (sizedString key) key := by
  have hreads := (reads_chunkRecvVariable_string (receivable_of_length_le hkey)).map stringOf
  rw [stringOf_stringBytes] at hreads
  exact hreads

theorem bytes_set (isNew : Bool) (key value : CString) :
    (Instruction.set isNew key value).bytes = enumBytes RequestCoordinador.set.code ++
      (boolBytes isNew ++ (sizedString key ++ sizedString value)) := by
  simp [Instruction.bytes, Instruction.blocks, instanceSendSetInstruction, List.append_assoc]

theorem bytes_store (key : CString) : (Instruction.store key).bytes =
    enumBytes RequestCoordinador.store.code ++ sizedString key := by
  simp [Instruction.bytes, Instruction.blocks, instanceSendStoreInstruction]

theorem bytes_requestValue (key : CString) : (Instruction.requestValue key).bytes =
    enumBytes RequestCoordinador.requestValue.code ++ sizedString key := by
  simp [Instruction.bytes, Instruction.blocks, instanceSendRequestValue]

theorem reads_coordinatorApiReceiveSet (isNew : Bool) (hkey : key.length ≤ 40)
    (hvalue : Receivable value) :
    Reads coordinatorApiReceiveSet (boolBytes isNew ++ (sizedString key ++ sizedString value))
      (isNew, keyValueCreate key value) := by
  have hlast := (reads_chunkRecvVariable_string hvalue).bind_pure
    fun read => (isNew, keyValueCreate key (stringOf read))
  rw [stringOf_stringBytes] at hlast
  refine (reads_chunkRecvBool isNew).bind ?_
  refine (reads_chunkRecvVariable_string (receivable_of_length_le hkey)).bind ?_
  rw [stringOf_stringBytes]
  exact hlast

theorem refuses_coordinatorApiReceiveSet (isNew : Bool) (hkey : key.length ≤ 40)
    (hmemory : InMemory value) (hlarge : ¬ Receivable value) :
    Refuses coordinatorApiReceiveSet
      (boolBytes isNew ++ (sizedString key ++ sizedString value)) := by
  have hlast := refuses_chunkRecvVariable_string hmemory hlarge
  refine (reads_chunkRecvBool isNew).refuses_bind ?_
  refine (reads_chunkRecvVariable_string (receivable_of_length_le hkey)).refuses_bind ?_
  exact hlast.bind_last

/-- The instance reads an instruction whose value one call of `recv` gives. -/
theorem reads_receiveRequest (hissued : Issued instruction)
    (hreceivable : ReceivableInstruction instruction) :
    Reads receiveRequest instruction.bytes (received instruction) := by
  have hheader := reads_coordinatorApiReceiveHeader
  cases instruction with
  | set isNew key value =>
      rw [bytes_set]
      exact (hheader .set).bind ((reads_coordinatorApiReceiveSet isNew (hissued.keySize key rfl)
        (hreceivable isNew key value rfl)).map _)
  | store key =>
      rw [bytes_store]
      exact (hheader .store).bind
        ((reads_coordinatorApiReceiveKey (hissued.keySize key rfl)).map _)
  | compact => exact (hheader .compact).bind (reads_pure _)
  | requestValue key =>
      rw [bytes_requestValue]
      exact (hheader .requestValue).bind
        ((reads_coordinatorApiReceiveKey (hissued.keySize key rfl)).map _)
  | isAlive => exact (hheader .isAlive).bind (reads_pure _)

/-- The instance refuses the other ones. -/
theorem refuses_receiveRequest (hissued : Issued instruction)
    (hlarge : ¬ ReceivableInstruction instruction) : Refuses receiveRequest instruction.bytes := by
  cases instruction with
  | set isNew key value =>
      have hvalue : ¬ Receivable value := by
        intro hreceivable
        refine hlarge fun _ _ _ hsame => ?_
        cases hsame
        exact hreceivable
      rw [bytes_set]
      refine (reads_coordinatorApiReceiveHeader .set).refuses_bind ?_
      rw [if_pos rfl]
      exact (refuses_coordinatorApiReceiveSet isNew (hissued.keySize key rfl)
        (hissued.inMemory isNew key value rfl) hvalue).map _
  | store key => exact absurd (fun _ _ _ hsame => by cases hsame) hlarge
  | compact => exact absurd (fun _ _ _ hsame => by cases hsame) hlarge
  | requestValue key => exact absurd (fun _ _ _ hsame => by cases hsame) hlarge
  | isAlive => exact absurd (fun _ _ _ hsame => by cases hsame) hlarge

theorem bytes_ne_nil (instruction : Instruction) : instruction.bytes ≠ [] := by
  cases instruction <;>
    simp [Instruction.bytes, Instruction.blocks, instanceSendSetInstruction,
      instanceSendStoreInstruction, instanceSendCompact, instanceSendRequestValue,
      instanceSendIsAlive, enumBytes, littleEndian]

/-- A sequence of instructions is received exactly when each value is. -/
theorem receiveAll_instructions_iff (hissued : ∀ instruction ∈ instructions, Issued instruction) :
    receiveAll receiveRequest (instructions.flatMap Instruction.bytes) =
        (instructions.map received, []) ↔
      ∀ instruction ∈ instructions, ReceivableInstruction instruction := by
  have hcases : ∀ instruction ∈ instructions,
      Reads receiveRequest instruction.bytes (received instruction) ∨
        Refuses receiveRequest instruction.bytes := by
    intro instruction hmem
    by_cases hreceivable : ReceivableInstruction instruction
    · exact .inl (reads_receiveRequest (hissued instruction hmem) hreceivable)
    · exact .inr (refuses_receiveRequest (hissued instruction hmem) hreceivable)
  rw [receiveAll_eq_iff rfl (fun instruction _ => bytes_ne_nil instruction) hcases]
  constructor
  · intro hreads instruction hmem
    by_contra hlarge
    exact (refuses_receiveRequest (hissued instruction hmem) hlarge).not_reads
      (hreads instruction hmem)
  · intro hreceivable instruction hmem
    exact reads_receiveRequest (hissued instruction hmem) (hreceivable instruction hmem)

/-! ## Operations -/

variable {parse : CString → Option EsiOperation} {lines : List CString}
  {operations : List EsiOperation}

/-- The packages of valid lines. -/
theorem mapM_obtainPackageFromLine (hparse : lines.map parse = operations.map some) :
    lines.mapM (obtainPackageFromLine parse) = some (operations.map EsiOperation.bytes) := by
  induction lines generalizing operations with
  | nil =>
      cases operations with
      | nil => rfl
      | cons operation operations => cases hparse
  | cons line lines ih =>
      cases operations with
      | nil => cases hparse
      | cons operation operations =>
          obtain ⟨hline, hlines⟩ := List.cons.inj hparse
          rw [List.mapM_cons, obtainPackageFromLine_eq hline, ih hlines]
          rfl

theorem EsiOperation.bytes_ne_nil (operation : EsiOperation) : operation.bytes ≠ [] := by
  cases operation <;> simp [EsiOperation.bytes, enumBytes, littleEndian]

/-- A sequence of operations is received exactly when each value is. -/
theorem receiveAll_operations_iff (hparsed : ∀ operation ∈ operations, operation.Parsed) :
    receiveAll esiRecvOperation (operations.flatMap EsiOperation.bytes) = (operations, []) ↔
      ∀ operation ∈ operations, ReceivableOperation operation := by
  have hcases : ∀ operation ∈ operations,
      Reads esiRecvOperation operation.bytes (id operation) ∨
        Refuses esiRecvOperation operation.bytes := by
    intro operation hmem
    by_cases hreceivable : ReceivableOperation operation
    · exact .inl (reads_esiRecvOperation (hparsed operation hmem) hreceivable)
    · exact .inr (refuses_esiRecvOperation (hparsed operation hmem) hreceivable)
  have hall := receiveAll_eq_iff rfl (fun operation _ => operation.bytes_ne_nil) hcases
  rw [List.map_id] at hall
  rw [hall]
  constructor
  · intro hreads operation hmem
    by_contra hlarge
    exact (refuses_esiRecvOperation (hparsed operation hmem) hlarge).not_reads
      (hreads operation hmem)
  · intro hreceivable operation hmem
    exact reads_esiRecvOperation (hparsed operation hmem) (hreceivable operation hmem)

/-! ## Replies -/

/-- What an instance replies. -/
inductive Reply
  | set (entriesUsed : ℕ) (status : ℤ)
  | store (status : ℤ)
  | value (keyValue : KeyValue)
  | replaced
  | alive

/-- The numbers and the value of a reply are objects of the program. -/
inductive Reply.Stored : Reply → Prop
  | set {entriesUsed : ℕ} {status : ℤ} (hentries : entriesUsed < 2 ^ 64) (hstatus : IsInt status) :
      Stored (.set entriesUsed status)
  | store {status : ℤ} (hstatus : IsInt status) : Stored (.store status)
  | value {keyValue : KeyValue} (hvalue : InMemory keyValue.value) : Stored (.value keyValue)
  | replaced : Stored .replaced
  | alive : Stored .alive

/-- The reader of the coordinator reads a reply as what it says. -/
def Reply.Agrees : Reply → Prop
  | .set entriesUsed status => Reads instanceRecvSetExecutionStatus
      (coordinatorApiNotifySet entriesUsed status) (status, entriesUsed)
  | .store status => Reads instanceRecvStoreExecutionStatus
      (coordinatorApiNotifyStatus .notifyStore status) status
  | .value keyValue => Reads instanceRecvValue (coordinatorApiNotifyKeyValue keyValue 1)
      (some keyValue.value)
  | .replaced => Reads instanceRecvValue (coordinatorApiNotifyStatus .retrieveValue 0) none
  | .alive => Reads instanceRecvConfirmation (coordinatorApiNotifyHeader .confirmConnection) ()

/-- One call of `recv` gives the value of a reply. -/
def ReceivableReply (reply : Reply) : Prop :=
  ∀ keyValue, reply = .value keyValue → Receivable keyValue.value

variable {keyValue : KeyValue} {status : ℤ} {entriesUsed : ℕ} {reply : Reply}
  {replies : List Reply}

theorem reads_header (header : RequestInstancia) :
    Reads recvEnum (enumBytes header.code) header.code := reads_recvEnum header.code_lt

theorem reads_notifySet (hentries : entriesUsed < 2 ^ 64) (hstatus : IsInt status) :
    Reads instanceRecvSetExecutionStatus (coordinatorApiNotifySet entriesUsed status)
      (status, entriesUsed) := by
  rw [coordinatorApiNotifySet, chunkAdd, chunkAdd, chunkAdd, chunkCreate, List.nil_append,
    List.append_assoc]
  refine (reads_header .notifyStatus).bind ?_
  rw [if_pos rfl]
  exact (reads_recvInt hstatus).bind ((reads_recvSize hentries).bind_pure _)

theorem reads_notifyStatus (hstatus : IsInt status) :
    Reads instanceRecvStoreExecutionStatus (coordinatorApiNotifyStatus .notifyStore status)
      status := by
  rw [coordinatorApiNotifyStatus, chunkAdd, chunkAdd, chunkCreate, List.nil_append]
  refine (reads_header .notifyStore).bind ?_
  rw [if_pos rfl]
  exact reads_recvInt hstatus

/-- A value is sent as a whole, with its terminator. -/
theorem coordinatorApiNotifyKeyValue_eq (keyValue : KeyValue) :
    coordinatorApiNotifyKeyValue keyValue 1 = enumBytes RequestInstancia.retrieveValue.code ++
      (intBytes 1 ++ sizedString keyValue.value) := by
  have hwhole : (stringBytes keyValue.value).take (keyValue.size + 1) =
      stringBytes keyValue.value := by
    rw [keyValue.size_eq, ← length_stringBytes, List.take_length]
  rw [coordinatorApiNotifyKeyValue, hwhole, chunkAddVariable, chunkAdd, chunkAdd, chunkAdd,
    chunkAdd, chunkCreate, List.nil_append, List.append_assoc, List.append_assoc]

theorem reads_notifyKeyValue (hvalue : Receivable keyValue.value) :
    Reads instanceRecvValue (coordinatorApiNotifyKeyValue keyValue 1) (some keyValue.value) := by
  rw [coordinatorApiNotifyKeyValue_eq]
  refine (reads_header .retrieveValue).bind ?_
  rw [if_pos rfl]
  refine (reads_recvInt (by decide)).bind ?_
  rw [if_pos rfl]
  refine (reads_recvSize hvalue.inMemory.size_lt).bind ?_
  rw [length_stringBytes, if_neg (by omega)]
  exact (reads_recvString hvalue).map some

theorem refuses_notifyKeyValue (hmemory : InMemory keyValue.value)
    (hlarge : ¬ Receivable keyValue.value) :
    Refuses instanceRecvValue (coordinatorApiNotifyKeyValue keyValue 1) := by
  rw [coordinatorApiNotifyKeyValue_eq]
  refine (reads_header .retrieveValue).refuses_bind ?_
  rw [if_pos rfl]
  refine (reads_recvInt (by decide)).refuses_bind ?_
  rw [if_pos rfl]
  refine (reads_recvSize hmemory.size_lt).refuses_bind ?_
  rw [length_stringBytes, if_neg (by omega)]
  exact (refuses_recvString hlarge _).map some

theorem reads_notifyReplaced :
    Reads instanceRecvValue (coordinatorApiNotifyStatus .retrieveValue 0) none := by
  rw [coordinatorApiNotifyStatus, chunkAdd, chunkAdd, chunkCreate, List.nil_append]
  refine (reads_header .retrieveValue).bind ?_
  rw [if_pos rfl]
  refine (reads_recvInt (by decide)).bind_last ?_
  rw [if_neg (by decide), if_pos rfl]
  exact reads_pure none

theorem reads_notifyConfirmation :
    Reads instanceRecvConfirmation (coordinatorApiNotifyHeader .confirmConnection) () := by
  refine (reads_header .confirmConnection).bind_last ?_
  rw [if_pos rfl]
  exact reads_pure ()

/-- **A reply** is read as what it says exactly when its value is received. -/
theorem Reply.agrees_iff (hstored : reply.Stored) : reply.Agrees ↔ ReceivableReply reply := by
  cases hstored with
  | set hentries hstatus =>
      exact iff_of_true (reads_notifySet hentries hstatus) fun _ hsame => by cases hsame
  | store hstatus =>
      exact iff_of_true (reads_notifyStatus hstatus) fun _ hsame => by cases hsame
  | @value keyValue hmemory =>
      constructor
      · intro hreads other hsame
        cases hsame
        by_contra hlarge
        exact (refuses_notifyKeyValue hmemory hlarge).not_reads hreads
      · intro hreceivable
        exact reads_notifyKeyValue (hreceivable keyValue rfl)
  | replaced => exact iff_of_true reads_notifyReplaced fun _ hsame => by cases hsame
  | alive => exact iff_of_true reads_notifyConfirmation fun _ hsame => by cases hsame

/-! ## The result -/

/-- Wire agreement for some lines of scripts with their operations, some instructions and
some replies. -/
structure WireAgreement (parse : CString → Option EsiOperation) (lines : List CString)
    (operations : List EsiOperation) (instructions : List Instruction)
    (replies : List Reply) : Prop where
  operations : ∃ packages, lines.mapM (obtainPackageFromLine parse) = some packages ∧
    receiveAll esiRecvOperation packages.flatten = (operations, [])
  instructions : receiveAll receiveRequest (instructions.flatMap Instruction.bytes) =
    (instructions.map received, [])
  replies : ∀ reply ∈ replies, reply.Agrees

/-- **The two sides agree** exactly when one call of `recv` gives each value that is sent. -/
theorem wireAgreement_iff (hparse : lines.map parse = operations.map some)
    (hparsed : ∀ operation ∈ operations, operation.Parsed)
    (hissued : ∀ instruction ∈ instructions, Issued instruction)
    (hstored : ∀ reply ∈ replies, reply.Stored) :
    WireAgreement parse lines operations instructions replies ↔
      (∀ operation ∈ operations, ReceivableOperation operation) ∧
        (∀ instruction ∈ instructions, ReceivableInstruction instruction) ∧
        ∀ reply ∈ replies, ReceivableReply reply := by
  have hpackages := mapM_obtainPackageFromLine hparse
  rw [← receiveAll_operations_iff hparsed, ← receiveAll_instructions_iff hissued]
  constructor
  · intro hagreement
    obtain ⟨packages, hsome, hoperations⟩ := hagreement.operations
    rw [hpackages] at hsome
    cases hsome
    refine ⟨hoperations, hagreement.instructions, fun reply hmem => ?_⟩
    exact (Reply.agrees_iff (hstored reply hmem)).mp (hagreement.replies reply hmem)
  · rintro ⟨hoperations, hinstructions, hreplies⟩
    refine ⟨⟨_, hpackages, hoperations⟩, hinstructions, fun reply hmem => ?_⟩
    exact (Reply.agrees_iff (hstored reply hmem)).mpr (hreplies reply hmem)

/-- A script of one line, two instructions that follow from such lines, and two replies. -/
theorem wireAgreement_iff_set :
    WireAgreement (fun line => some (.set line line)) [literal [75]]
      [.set (literal [75]) (literal [75])]
      [.set true (literal [75]) (literal [75]), .store (literal [75])]
      [.set 1 1, .value (keyValueCreate (literal [75]) (literal [75]))] := by
  have hvalue : Receivable (literal [75]) := by decide
  have hparsed : (EsiOperation.set (literal [75]) (literal [75])).Parsed := by
    refine ⟨rfl, fun key value hsame => ?_⟩
    cases hsame
    decide
  have hset : Issued (.set true (literal [75]) (literal [75])) := by
    refine ⟨fun key hkey => ?_, fun isNew key value hsame => ?_⟩
    · cases hkey
      decide
    · cases hsame
      decide
  have hstore : Issued (.store (literal [75])) := by
    refine ⟨fun key hkey => ?_, fun isNew key value hsame => by cases hsame⟩
    cases hkey
    decide
  have hreply : (Reply.value (keyValueCreate (literal [75]) (literal [75]))).Stored :=
    .value hvalue.inMemory
  refine (wireAgreement_iff rfl (by simpa using hparsed) (by simpa using ⟨hset, hstore⟩)
    (by simpa using ⟨.set (by decide) (by decide), hreply⟩)).mpr ⟨?_, ?_, ?_⟩
  · intro operation hmem key value hsame
    rw [List.mem_singleton.mp hmem] at hsame
    cases hsame
    exact hvalue
  · intro instruction hmem isNew key value hsame
    rcases List.mem_pair.mp hmem with rfl | rfl
    · cases hsame
      exact hvalue
    · cases hsame
  · intro reply hmem keyValue hsame
    rcases List.mem_pair.mp hmem with rfl | rfl
    · cases hsame
    · cases hsame
      exact hvalue

/-- The shortest value that no call of `recv` gives with its terminator. -/
def hugeValue : CString := stringRepeatX recvMost

/-- The coordinator does not read a SET with a value of two gigabytes. -/
theorem not_wireAgreement :
    ¬ ∀ (parse : CString → Option EsiOperation) (lines : List CString)
      (operations : List EsiOperation) (instructions : List Instruction) (replies : List Reply),
      lines.map parse = operations.map some → (∀ operation ∈ operations, operation.Parsed) →
      (∀ instruction ∈ instructions, Issued instruction) →
      (∀ reply ∈ replies, reply.Stored) →
      WireAgreement parse lines operations instructions replies := by
  intro hclaim
  have hlength : hugeValue.length = recvMost := length_stringRepeatX _
  have hparsed : ∀ operation ∈ [EsiOperation.set (literal [75]) hugeValue],
      operation.Parsed := by
    intro operation hmem
    rw [List.mem_singleton.mp hmem]
    refine ⟨rfl, fun key value hsame => ?_⟩
    cases hsame
    unfold InMemory
    rw [hlength]
    decide
  have hparse : [literal [75]].map (fun line => some (EsiOperation.set line hugeValue)) =
      [EsiOperation.set (literal [75]) hugeValue].map some := rfl
  obtain ⟨packages, hpackages, hread⟩ :=
    (hclaim _ [literal [75]] _ [] [] hparse hparsed (by simp) (by simp)).operations
  rw [mapM_obtainPackageFromLine hparse] at hpackages
  cases hpackages
  have hreceivable := (receiveAll_operations_iff hparsed).mp hread _
    (List.mem_singleton_self _) _ _ rfl
  unfold Receivable at hreceivable
  omega

end SockMyPort.Sistema
