/-
# What is said on the connection of an instance

The first bytes on a connection are the configuration. After it the connection is settled
whenever no thread is inside the critical section of its node, and the thread inside finds
the reply to its own request only.
-/

import SockMyPort.Sistema.InstanceConnections

namespace SockMyPort.Sistema.Sockets

open SockMyPort.Commons SockMyPort.Protocolo SockMyPort.Libs SockMyPort.Coordinador
  SockMyPort.Instancia Library

variable {setup : EntriesSetup}

/-! ## Messages -/

/-- The bytes of the configuration. -/
def configurationBytes (setup : EntriesSetup) (keyList : KeyList) : List UInt8 :=
  (instanceSendConfirmation setup keyList.val).flatten

theorem configurationBytes_eq (keyList : KeyList) : configurationBytes setup keyList =
    sizeBytes (toSizeT setup.entriesSize) ++ (sizeBytes (toSizeT setup.entriesNum) ++
      (sizeBytes keyList.val.length ++ keyList.val.flatMap sizedString)) := by
  have hkeys : ∀ keys : List CString,
      (keys.flatMap fun key => [sizeBytes (key.length + 1), stringBytes key]).flatten =
        keys.flatMap sizedString := by
    intro keys
    induction keys with
    | nil => rfl
    | cons key keys ih =>
        rw [List.flatMap_cons, List.flatten_append, ih, List.flatMap_cons]
        simp [sizedString]
  rw [configurationBytes, instanceSendConfirmation, List.flatten_cons, hkeys]
  simp only [List.append_assoc]

/-- The instance reads the configuration as it was sent. -/
theorem reads_configuration (setup : EntriesSetup) (keyList : KeyList) :
    Reads coordinatorApiHandshakeReceiveConfig (configurationBytes setup keyList)
      (toSizeT setup.entriesSize, toSizeT setup.entriesNum, keyList.val) := by
  rw [configurationBytes_eq]
  refine (reads_chunkRecvSize countable_sizeOfSize (toSizeT_lt _)).bind ?_
  refine (reads_chunkRecvSize countable_sizeOfSize (toSizeT_lt _)).bind ?_
  have hkeys : Reads (chunkRecvList recvLimit coordinatorApiReceiveKey)
      (sizeBytes keyList.val.length ++ keyList.val.flatMap sizedString) (keyList.val.map id) :=
    reads_chunkRecvList countable_sizeOfSize (Nat.lt_trans keyList.property.2 (by decide))
      fun key hmem => reads_coordinatorApiReceiveKey (keyList.property.1 key hmem)
  rw [List.map_id] at hkeys
  exact hkeys.bind_pure _

theorem block_ne_nil {message : Message} {block : List UInt8}
    (hmem : block ∈ message.blocks setup) : block ≠ [] := by
  rintro rfl
  revert hmem
  cases message with
  | configuration keyList =>
      simp [Message.blocks, instanceSendConfirmation, sizeBytes, stringBytes, littleEndian]
  | instruction issued =>
      obtain ⟨instruction, hissued⟩ := issued
      cases instruction <;>
        simp [Message.blocks, Instruction.blocks, instanceSendSetInstruction,
          instanceSendStoreInstruction, instanceSendCompact, instanceSendRequestValue,
          instanceSendIsAlive, enumBytes, boolBytes, sizeBytes, stringBytes, littleEndian]

theorem blocks_ne_nil (message : Message) : message.blocks setup ≠ [] := by
  cases message with
  | configuration keyList => exact List.cons_ne_nil _ _
  | instruction issued =>
      obtain ⟨instruction, hissued⟩ := issued
      cases instruction <;> exact List.cons_ne_nil _ _

/-- After some fields of a reply the coordinator reads these, and then nothing. -/
def Fields (instruction : Instruction) : List (List UInt8) → List (List UInt8) → Prop
  | read, [] => demand instruction read = .complete
  | read, field :: left =>
      demand instruction read = .more field.length ∧ Fields instruction (read ++ [field]) left

theorem ofLittleEndian_enumBytes (header : RequestInstancia) :
    ofLittleEndian (enumBytes header.code) = header.code := by
  rw [enumBytes, ofLittleEndian_littleEndian, Nat.mod_eq_of_lt header.code_lt]

theorem ofLittleEndian_sizeBytes {size : ℕ} (hsize : size < 2 ^ 64) :
    ofLittleEndian (sizeBytes size) = size := by
  rw [sizeBytes, ofLittleEndian_littleEndian, Nat.mod_eq_of_lt (by norm_num; omega)]

theorem length_enumBytes (code : ℕ) : (enumBytes code).length = 4 := length_littleEndian 4 code

theorem length_intBytes (number : ℤ) : (intBytes number).length = 4 :=
  length_littleEndianInt 4 number

/-- Every reply of an instance comes in the fields that the coordinator reads. -/
theorem exists_fields {instruction : Instruction} {outcome : Outcome} {reply : Chunk}
    {goesOn : Bool}
    (hreply : instanceThreadApi (received instruction) outcome = some (reply, goesOn))
    (hcompact : instruction ≠ .compact) :
    ∃ fields, reply = fields.flatten ∧ Fields instruction [] fields := by
  have hheader := ofLittleEndian_enumBytes
  cases instruction with
  | set isNew key value =>
      cases outcome with
      | set status entriesUsed =>
          cases hreply
          refine ⟨[enumBytes RequestInstancia.notifyStatus.code, intBytes (statusCode status),
            sizeBytes entriesUsed], by simp [coordinatorApiNotifySet, chunkAdd, chunkCreate], ?_⟩
          refine ⟨?_, ?_, ?_, rfl⟩
          · rw [length_enumBytes]
            rfl
          · rw [length_intBytes]
            simp [demand, hheader .notifyStatus]
          · rw [length_sizeBytes]
            rfl
      | _ => cases hreply
  | store key =>
      cases outcome with
      | store isStored =>
          cases hreply
          refine ⟨[enumBytes RequestInstancia.notifyStore.code,
            intBytes (if isStored then 1 else 0)],
            by simp [coordinatorApiNotifyStatus, chunkAdd, chunkCreate], ?_⟩
          refine ⟨?_, ?_, rfl⟩
          · rw [length_enumBytes]
            rfl
          · rw [length_intBytes]
            simp [demand, hheader .notifyStore]
      | _ => cases hreply
  | compact => exact absurd rfl hcompact
  | requestValue key =>
      cases outcome with
      | value keyValue =>
          cases keyValue with
          | none =>
              cases hreply
              refine ⟨[enumBytes RequestInstancia.retrieveValue.code, intBytes 0],
                by simp [coordinatorApiNotifyStatus, chunkAdd, chunkCreate], ?_⟩
              refine ⟨?_, ?_, ?_⟩
              · rw [length_enumBytes]
                rfl
              · rw [length_intBytes]
                simp [demand, hheader .retrieveValue]
              · rfl
          | some keyValue =>
              obtain ⟨keyValue, hreceivable⟩ := keyValue
              cases hreply
              have hwhole : (stringBytes keyValue.value).take (keyValue.size + 1) =
                  stringBytes keyValue.value := by
                rw [keyValue.size_eq, ← length_stringBytes, List.take_length]
              refine ⟨[enumBytes RequestInstancia.retrieveValue.code, intBytes 1,
                sizeBytes (stringBytes keyValue.value).length, stringBytes keyValue.value], ?_, ?_⟩
              · simp [coordinatorApiNotifyKeyValue, chunkAddVariable, chunkAdd, chunkCreate, hwhole]
              refine ⟨?_, ?_, ?_, ?_, rfl⟩
              · rw [length_enumBytes]
                rfl
              · rw [length_intBytes]
                simp [demand, hheader .retrieveValue]
              · rw [length_sizeBytes]
                rfl
              · have hsize := ofLittleEndian_sizeBytes hreceivable.inMemory.size_lt
                rw [length_stringBytes] at hsize ⊢
                simp [demand, hsize]
      | _ => cases hreply
  | isAlive =>
      cases outcome with
      | other =>
          cases hreply
          refine ⟨[enumBytes RequestInstancia.confirmConnection.code],
            by simp [coordinatorApiNotifyHeader, chunkAdd, chunkCreate], ?_⟩
          refine ⟨?_, ?_⟩
          · rw [length_enumBytes]
            rfl
          · simp [Fields, demand, hheader .confirmConnection]
      | _ => cases hreply

/-! ## One connection -/

/-- Instances do not answer a compaction. -/
def IsSilent (request : ReceivedRequest) : Prop := request = .compact

/-- No reply is there for the coordinator, and none will come. -/
abbrev Settled (channel : Channel ReceivedRequest) : Prop :=
  channel.Settled coordinatorApiHandshakeReceiveConfig receiveRequest IsSilent

/-- No reply is there, and the instance has these bytes of a request before it. -/
abbrev Pending (channel : Channel ReceivedRequest) (tag : ℕ) (bytes : List UInt8) : Prop :=
  channel.Pending coordinatorApiHandshakeReceiveConfig receiveRequest IsSilent tag bytes

/-- Nothing was said yet. -/
structure Fresh (channel : Channel ReceivedRequest) : Prop where
  written : channel.written = []
  unread : channel.unread = []
  replies : channel.replies = []
  isGreeted : channel.isGreeted = false
  isBroken : channel.isBroken = false

/-- These blocks are left of the configuration. -/
structure Configuring (setup : EntriesSetup) (keyList : KeyList) (left : List (List UInt8))
    (channel : Channel ReceivedRequest) : Prop where
  some_left : left ≠ []
  blocks : ∀ block ∈ left, block ≠ []
  written : channel.written ++ left.flatten = configurationBytes setup keyList
  isBroken : channel.isBroken = false
  replies : channel.replies = []
  isGreeted : channel.isGreeted = false
  unread : channel.isAlive = true →
    untagged channel.unread ++ left.flatten = configurationBytes setup keyList

/-- These blocks are left of an instruction. -/
structure Asking (instruction : Instruction) (tag : ℕ) (left : List (List UInt8))
    (channel : Channel ReceivedRequest) : Prop where
  some_left : left ≠ []
  blocks : ∀ block ∈ left, block ≠ []
  pending : ∃ sent, Pending channel tag sent ∧ sent ++ left.flatten = instruction.bytes

/-- The reply to an instruction is read, or will be. -/
def Listening (instruction : Instruction) (tag : ℕ) (chunks : List (List (UInt8 × ℕ)))
    (channel : Channel ReceivedRequest) : Prop :=
  (chunks = [] ∧ Pending channel tag instruction.bytes) ∨
    ∃ read left, left ≠ [] ∧ chunks = read.map (tagged tag) ∧ Fields instruction read left ∧
      channel.Answered tag (received instruction) read.flatten left.flatten

/-- What the thread inside a critical section finds on the connection. -/
def Conversing (setup : EntriesSetup) (inside : CriticalSection)
    (channel : Channel ReceivedRequest) : Prop :=
  match inside.message, inside.phase with
  | .configuration keyList, .sending left => Configuring setup keyList left channel
  | .configuration _, .receiving _ => False
  | .instruction instruction, .sending left =>
      instruction.val ≠ .compact ∧ Asking instruction.val inside.tag left channel
  | .instruction instruction, .receiving chunks =>
      instruction.val ≠ .compact ∧ Listening instruction.val inside.tag chunks channel

section Instances

variable {channel next : Channel ReceivedRequest} {inside : CriticalSection}
  {instruction : IssuedInstruction} {keyList : KeyList} {tag size sent : ℕ}
  {block : List UInt8} {left : List (List UInt8)} {chunks : List (List (UInt8 × ℕ))}
  {outcome : Outcome}

theorem flatten_ne_nil (hleft : left ≠ []) (hblocks : ∀ block ∈ left, block ≠ []) :
    left.flatten ≠ [] := by
  intro hnil
  obtain ⟨block, hmem⟩ := List.exists_mem_of_ne_nil left hleft
  exact hblocks block hmem (List.flatten_eq_nil_iff.mp hnil block hmem)

theorem reply_of_isSilent (request : ReceivedRequest) (reply : Chunk) (goesOn : Bool)
    (hsilent : IsSilent request)
    (hreply : instanceThreadApi request outcome = some (reply, goesOn)) :
    reply = [] := by
  cases hsilent
  cases outcome with
  | other =>
      cases hreply
      rfl
  | _ => cases hreply

theorem Settled.greet (hsettled : Settled channel)
    (hgreet : channel.greet coordinatorApiHandshakeReceiveConfig = some next) : Settled next :=
  (Channel.settled_iff_pending 0).mpr (((Channel.settled_iff_pending 0).mp hsettled).greet hgreet)

theorem Fresh.greet_eq_none (hfresh : Fresh channel) :
    channel.greet coordinatorApiHandshakeReceiveConfig = none := by
  cases hgreet : channel.greet coordinatorApiHandshakeReceiveConfig with
  | none => rfl
  | some next =>
      obtain ⟨-, -, value, rest, hread, -⟩ := Channel.greet_eq_some hgreet
      rw [hfresh.unread] at hread
      cases hread

theorem Fresh.serve_eq_none (hfresh : Fresh channel) :
    channel.serve receiveRequest (instanceThreadApi · outcome) sent = none := by
  cases hserve : channel.serve receiveRequest (instanceThreadApi · outcome) sent with
  | none => rfl
  | some next =>
      have hgreeted := (Channel.serve_eq_some hserve).2.1
      rw [hfresh.isGreeted] at hgreeted
      cases hgreeted

/-- What is missing of an instruction keeps the instance from reading it. -/
theorem receiveRequest_eq_none {start : List UInt8} (hleft : left ≠ [])
    (hblocks : ∀ block ∈ left, block ≠ [])
    (hbytes : start ++ left.flatten = instruction.val.bytes) : receiveRequest start = none := by
  refine steady_receiveRequest.incomplete (received instruction.val)
    (flatten_ne_nil hleft hblocks) ?_
  rw [hbytes]
  by_cases hreceivable : ReceivableInstruction instruction.val
  · exact .inl (reads_receiveRequest instruction.property hreceivable)
  · exact .inr (refuses_receiveRequest instruction.property hreceivable)

/-- The instance reads a whole instruction, or nothing. -/
theorem receiveRequest_bytes (instruction : IssuedInstruction) :
    receiveRequest instruction.val.bytes = none ∨ instruction.val.bytes ≠ [] ∧
      Reads receiveRequest instruction.val.bytes (received instruction.val) := by
  by_cases hreceivable : ReceivableInstruction instruction.val
  · exact .inr ⟨bytes_ne_nil _, reads_receiveRequest instruction.property hreceivable⟩
  · have hnone := refuses_receiveRequest instruction.property hreceivable []
    rw [List.append_nil] at hnone
    exact .inl hnone

theorem Settled.serve (hsettled : Settled channel)
    (hserve : channel.serve receiveRequest (instanceThreadApi · outcome) sent = some next) :
    Settled next := by
  have hpending := (Channel.settled_iff_pending 0).mp hsettled
  rcases hpending.serve .compact reply_of_isSilent (.inl rfl) hserve with
    hpending | ⟨hreads, -⟩
  · exact (Channel.settled_iff_pending 0).mpr hpending
  · cases hreads []

theorem Settled.die (hsettled : Settled channel) : Settled channel.die :=
  ⟨hsettled.1, fun halive => by cases halive⟩

theorem Conversing.die (hconversing : Conversing setup inside channel) :
    Conversing setup inside channel.die := by
  obtain ⟨thread, tag, message, fd, phase⟩ := inside
  cases message with
  | configuration keyList =>
      cases phase with
      | sending left => exact { hconversing with unread := fun halive => by cases halive }
      | receiving chunks => exact hconversing
  | instruction issued =>
      cases phase with
      | sending left =>
          obtain ⟨hcompact, hleft, hblocks, start, hpending, hbytes⟩ := hconversing
          exact ⟨hcompact, hleft, hblocks, start, hpending.die, hbytes⟩
      | receiving chunks =>
          obtain ⟨hcompact,
            ⟨hchunks, hpending⟩ | ⟨read, left, hleft, hchunks, hfields, hanswered⟩⟩ :=
            hconversing
          · exact ⟨hcompact, .inl ⟨hchunks, hpending.die⟩⟩
          · exact ⟨hcompact, .inr ⟨read, left, hleft, hchunks, hfields, hanswered.die⟩⟩

/-- The instance reads its configuration. -/
theorem Conversing.greet (hconversing : Conversing setup inside channel)
    (hgreet : channel.greet coordinatorApiHandshakeReceiveConfig = some next) :
    Conversing setup inside next := by
  obtain ⟨thread, tag, message, fd, phase⟩ := inside
  cases message with
  | configuration keyList =>
      cases phase with
      | sending left =>
          -- it waits for the blocks that are missing
          obtain ⟨halive, -, value, rest, hread, -⟩ := Channel.greet_eq_some hgreet
          have hnone : coordinatorApiHandshakeReceiveConfig (untagged channel.unread) = none := by
            have hall := reads_configuration setup keyList
            rw [← hconversing.unread halive] at hall
            exact steady_coordinatorApiHandshakeReceiveConfig.incomplete _
              (flatten_ne_nil hconversing.some_left hconversing.blocks) (.inl hall)
          rw [receiveTagged_eq_none hnone] at hread
          cases hread
      | receiving chunks => exact hconversing.elim
  | instruction issued =>
      cases phase with
      | sending left =>
          obtain ⟨hcompact, hleft, hblocks, start, hpending, hbytes⟩ := hconversing
          exact ⟨hcompact, hleft, hblocks, start, hpending.greet hgreet, hbytes⟩
      | receiving chunks =>
          obtain ⟨hcompact,
            ⟨hchunks, hpending⟩ | ⟨read, left, hleft, hchunks, hfields, hanswered⟩⟩ :=
            hconversing
          · exact ⟨hcompact, .inl ⟨hchunks, hpending.greet hgreet⟩⟩
          · rw [hanswered.greet_eq_none] at hgreet
            cases hgreet

/-- The instance reads a request. If it is the one of the thread inside, the reply to it
is all that there is to read. -/
theorem Conversing.serve (hconversing : Conversing setup inside channel)
    (hserve : channel.serve receiveRequest (instanceThreadApi · outcome) sent = some next) :
    Conversing setup inside next := by
  obtain ⟨thread, tag, message, fd, phase⟩ := inside
  cases message with
  | configuration keyList =>
      cases phase with
      | sending left =>
          have hgreeted := (Channel.serve_eq_some hserve).2.1
          rw [hconversing.isGreeted] at hgreeted
          cases hgreeted
      | receiving chunks => exact hconversing.elim
  | instruction issued =>
      cases phase with
      | sending left =>
          obtain ⟨hcompact, hleft, hblocks, start, hpending, hbytes⟩ := hconversing
          have hnone := receiveRequest_eq_none hleft hblocks hbytes
          rcases hpending.serve .compact reply_of_isSilent (.inl hnone) hserve with
            hpending | ⟨hreads, -⟩
          · exact ⟨hcompact, hleft, hblocks, start, hpending, hbytes⟩
          · have hsome := hreads []
            rw [List.append_nil, hnone] at hsome
            cases hsome
      | receiving chunks =>
          obtain ⟨hcompact,
            ⟨hchunks, hpending⟩ | ⟨read, left, hleft, hchunks, hfields, hanswered⟩⟩ :=
            hconversing
          · rcases hpending.serve _ reply_of_isSilent (receiveRequest_bytes issued) hserve with
              hpending | ⟨-, reply, goesOn, hreply, hanswered⟩
            · exact ⟨hcompact, .inl ⟨hchunks, hpending⟩⟩
            · obtain ⟨fields, rfl, hfields⟩ := exists_fields hreply hcompact
              refine ⟨hcompact, .inr ⟨[], fields, ?_, hchunks, hfields, hanswered⟩⟩
              rintro rfl
              cases hfields
          · rw [hanswered.serve_eq_none rfl] at hserve
            cases hserve

/-! ## The thread inside -/

/-- The thread inside can send nothing more. -/
theorem Conversing.fail (hconversing : Conversing setup inside channel)
    (hphase : inside.phase = .sending left) (halive : channel.isAlive = false) :
    Settled { channel with isBroken := true } := by
  refine ⟨?_, fun hdead => absurd hdead (by simp [halive])⟩
  obtain ⟨thread, tag, message, fd, phase⟩ := inside
  cases hphase
  cases message with
  | configuration keyList => exact hconversing.replies
  | instruction issued =>
      obtain ⟨-, -, -, start, hpending, -⟩ := hconversing
      exact hpending.1

/-- The thread inside has sent a block, and others are left. -/
theorem Conversing.send (hconversing : Conversing setup inside channel)
    (hphase : inside.phase = .sending (block :: left)) (hleft : left ≠ []) :
    Conversing setup { inside with phase := .sending left }
      (channel.write inside.tag block) := by
  obtain ⟨thread, tag, message, fd, phase⟩ := inside
  cases hphase
  cases message with
  | configuration keyList =>
      have hwritten := hconversing.written
      rw [List.flatten_cons, ← List.append_assoc] at hwritten
      refine ⟨hleft, fun other hmem => hconversing.blocks other (List.mem_cons_of_mem _ hmem),
        hwritten, hconversing.isBroken, hconversing.replies, hconversing.isGreeted,
        fun halive => ?_⟩
      have hunread := hconversing.unread halive
      rw [List.flatten_cons, ← List.append_assoc] at hunread
      show untagged (channel.unread ++ tagged tag block) ++ left.flatten = _
      rw [untagged_append, untagged_tagged]
      exact hunread
  | instruction issued =>
      obtain ⟨hcompact, -, hblocks, start, hpending, hbytes⟩ := hconversing
      refine ⟨hcompact, hleft, fun other hmem => hblocks other (List.mem_cons_of_mem _ hmem),
        start ++ block, hpending.write block, ?_⟩
      rw [List.append_assoc, ← hbytes, List.flatten_cons]

/-- The configuration was sent. -/
theorem Configuring.last (hconfiguring : Configuring setup keyList [block] channel) (tag : ℕ) :
    Settled (channel.write tag block) ∧
      (channel.write tag block).written = configurationBytes setup keyList := by
  have hwritten := hconfiguring.written
  rw [List.flatten_singleton] at hwritten
  refine ⟨⟨hconfiguring.replies, fun halive => ?_⟩, hwritten⟩
  have hunread := hconfiguring.unread halive
  rw [List.flatten_singleton] at hunread
  show Channel.Front _ _ _ _ (untagged (channel.unread ++ tagged tag block))
  rw [untagged_append, untagged_tagged, hunread]
  refine ⟨_, [], (List.append_nil _).symm, Channel.silent_nil, ?_⟩
  rw [if_neg (by simp [Channel.write, hconfiguring.isGreeted])]
  exact ⟨_, reads_configuration setup keyList⟩

/-- An instruction was sent. -/
theorem Asking.last (hasking : Asking instruction.val tag [block] channel) :
    Listening instruction.val tag [] (channel.write tag block) := by
  obtain ⟨-, -, start, hpending, hbytes⟩ := hasking
  rw [List.flatten_singleton] at hbytes
  have hall := hpending.write block
  rw [hbytes] at hall
  exact .inl ⟨rfl, hall⟩

/-- What the coordinator has read is the reply of the instance to its request. -/
def OwnReply (channel : Channel ReceivedRequest) (reading : Reading) : Prop :=
  ∃ answer ∈ channel.answers, answer.tag = reading.tag ∧
    answer.request = received reading.instruction ∧
    reading.bytes = tagged reading.tag answer.reply

theorem flatten_map_tagged (tag : ℕ) (fields : List (List UInt8)) :
    (fields.map (tagged tag)).flatten = tagged tag fields.flatten := by
  induction fields with
  | nil => rfl
  | cons field fields ih =>
      rw [List.map_cons, List.flatten_cons, ih, List.flatten_cons, tagged_append]

theorem map_untagged_map_tagged (tag : ℕ) (fields : List (List UInt8)) :
    (fields.map (tagged tag)).map untagged = fields := by
  simp [Function.comp_def]

/-- The thread inside reads a field. It goes on, or it has read the reply to its request. -/
theorem Listening.recv {result : Option (List (UInt8 × ℕ))}
    (hlistening : Listening instruction.val tag chunks channel)
    (hdemand : demand instruction.val (chunks.map untagged) = .more size)
    (htake : channel.tryTake size = some (result, next)) :
    (result = none ∧ Settled next) ∨ ∃ chunk, result = some chunk ∧
      ((∃ size', demand instruction.val ((chunks ++ [chunk]).map untagged) = .more size' ∧
          Listening instruction.val tag (chunks ++ [chunk]) next) ∨
        demand instruction.val ((chunks ++ [chunk]).map untagged) = .complete ∧ Settled next ∧
          OwnReply next ⟨tag, instruction.val, (chunks ++ [chunk]).flatten⟩) := by
  rcases hlistening with ⟨rfl, hpending⟩ | ⟨read, left, hleft, rfl, hfields, hanswered⟩
  · have hsize : 0 < size := by
      have hfirst : demand instruction.val [] = .more 4 := by
        cases instruction.val <;> rfl
      rw [List.map_nil, hfirst] at hdemand
      cases hdemand
      decide
    obtain ⟨rfl, hsettled⟩ := hpending.tryTake hsize htake
    exact .inl ⟨rfl, hsettled⟩
  · rw [map_untagged_map_tagged] at hdemand
    cases left with
    | nil => exact absurd rfl hleft
    | cons field left =>
        obtain ⟨hfield, hfields⟩ := hfields
        rw [hfield] at hdemand
        cases hdemand
        rw [List.flatten_cons] at hanswered
        rcases hanswered.tryTake htake with ⟨rfl, hanswered⟩ | ⟨rfl, hsettled⟩
        · refine .inr ⟨_, rfl, ?_⟩
          have hchunks : read.map (tagged tag) ++ [tagged tag field] =
              (read ++ [field]).map (tagged tag) := by rw [List.map_append, List.map_singleton]
          have hread : read.flatten ++ field = (read ++ [field]).flatten := by
            rw [List.flatten_append, List.flatten_singleton]
          rw [hchunks, map_untagged_map_tagged]
          rw [hread] at hanswered
          cases left with
          | nil =>
              refine .inr ⟨hfields, hanswered.settled, ?_⟩
              obtain ⟨answer, hmem, htag, hrequest, hreply, -⟩ := hanswered
              refine ⟨answer, hmem, htag, hrequest, ?_⟩
              rw [hreply, List.flatten_nil, List.append_nil]
              exact flatten_map_tagged tag _
          | cons other left =>
              exact .inl ⟨_, hfields.1, .inr ⟨_, _, List.cons_ne_nil _ _, rfl, hfields, hanswered⟩⟩
        · exact .inl ⟨rfl, hsettled⟩

end Instances

end SockMyPort.Sistema.Sockets
