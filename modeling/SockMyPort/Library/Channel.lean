/-
# Requests and replies on one connection

A client writes requests on a connection, one after another, and a server reads them in
that order and answers them. Each byte carries the number of the critical section of the
client in which it was written, or in which the request was written that it answers. Before
the first request the client sends a greeting, and there are requests that the server does
not answer.

Stated here is what one request can find and leave on the connection, and what each
operation makes of it.
-/

import SockMyPort.Library.Wire

namespace Library

/-! ## Numbered bytes -/

/-- Bytes of one critical section. -/
def tagged (tag : ℕ) (bytes : List UInt8) : List (UInt8 × ℕ) := bytes.map fun byte => (byte, tag)

/-- The bytes alone. -/
def untagged (bytes : List (UInt8 × ℕ)) : List UInt8 := bytes.map Prod.fst

@[simp]
theorem untagged_tagged (tag : ℕ) (bytes : List UInt8) : untagged (tagged tag bytes) = bytes := by
  simp [untagged, tagged, Function.comp_def]

@[simp]
theorem untagged_append (first second : List (UInt8 × ℕ)) :
    untagged (first ++ second) = untagged first ++ untagged second := List.map_append

@[simp]
theorem tagged_append (tag : ℕ) (first second : List UInt8) :
    tagged tag (first ++ second) = tagged tag first ++ tagged tag second := List.map_append

@[simp]
theorem tagged_nil (tag : ℕ) : tagged tag [] = [] := rfl

@[simp]
theorem length_tagged (tag : ℕ) (bytes : List UInt8) : (tagged tag bytes).length = bytes.length :=
  List.length_map _

@[simp]
theorem length_untagged (bytes : List (UInt8 × ℕ)) : (untagged bytes).length = bytes.length :=
  List.length_map _

variable {α ρ : Type} {receiver : Receiver α} {value : α} {tag size : ℕ}

/-- Receive from a stream of numbered bytes. -/
def receiveTagged (receiver : Receiver α) (stream : List (UInt8 × ℕ)) :
    Option (α × List (UInt8 × ℕ)) :=
  (receiver (untagged stream)).map fun read =>
    (read.1, stream.drop (stream.length - read.2.length))

theorem receiveTagged_append {front rest : List (UInt8 × ℕ)}
    (hreads : Reads receiver (untagged front) value) :
    receiveTagged receiver (front ++ rest) = some (value, rest) := by
  rw [receiveTagged, untagged_append, hreads, Option.map_some, length_untagged,
    List.length_append, Nat.add_sub_cancel, List.drop_left]

theorem receiveTagged_eq_none {stream : List (UInt8 × ℕ)}
    (hnone : receiver (untagged stream) = none) : receiveTagged receiver stream = none := by
  rw [receiveTagged, hnone, Option.map_none]

/-! ## Connections -/

/-- A request that the server has read, with its reply. -/
structure Answer (ρ : Type) where
  tag : ℕ
  request : ρ
  reply : List UInt8
  deriving DecidableEq

/-- A connection. -/
structure Channel (ρ : Type) where
  /-- What the client has written. -/
  written : List UInt8
  /-- What the server has not read. -/
  unread : List (UInt8 × ℕ)
  /-- The server has read the greeting. -/
  isGreeted : Bool
  /-- What the client has not read. -/
  replies : List (UInt8 × ℕ)
  /-- The requests that the server has read. -/
  answers : List (Answer ρ)
  /-- The server is running. -/
  isAlive : Bool
  /-- The client could not write. -/
  isBroken : Bool
  deriving DecidableEq

namespace Channel

/-- A connection that was just made. -/
def init : Channel ρ := ⟨[], [], false, [], [], true, false⟩

/-- The client writes. -/
def write (channel : Channel ρ) (tag : ℕ) (block : List UInt8) : Channel ρ :=
  { channel with
    written := channel.written ++ block
    unread := channel.unread ++ tagged tag block }

/-- The client writes, or finds out that it cannot, which it does not before the server
has died. A connection that is broken stays broken. -/
def trySend (channel : Channel ρ) (tag : ℕ) (block : List UInt8) (fails : Bool) :
    Option (Bool × Channel ρ) :=
  if fails then
    if channel.isAlive then none else some (false, { channel with isBroken := true })
  else if channel.isBroken then none
  else some (true, channel.write tag block)

theorem trySend_eq_some {channel next : Channel ρ} {block : List UInt8} {fails isSent : Bool}
    (hsend : channel.trySend tag block fails = some (isSent, next)) :
    (isSent = true ∧ channel.isBroken = false ∧ next = channel.write tag block) ∨
      (isSent = false ∧ channel.isAlive = false ∧ next = { channel with isBroken := true }) := by
  rw [trySend] at hsend
  split at hsend
  · split at hsend
    · cases hsend
    · rename_i halive
      cases hsend
      exact .inr ⟨rfl, Bool.eq_false_iff.mpr halive, rfl⟩
  · split at hsend
    · cases hsend
    · rename_i hbroken
      cases hsend
      exact .inl ⟨rfl, Bool.eq_false_iff.mpr hbroken, rfl⟩

/-- The client waits for so many bytes. It gives up only when the server has died. -/
def tryTake (channel : Channel ρ) (size : ℕ) : Option (Option (List (UInt8 × ℕ)) × Channel ρ) :=
  if size ≤ channel.replies.length then
    some (some (channel.replies.take size),
      { channel with replies := channel.replies.drop size })
  else if channel.isAlive then none
  else some (none, { channel with replies := [] })

/-- The server reads the greeting. -/
def greet (greeter : Receiver α) (channel : Channel ρ) : Option (Channel ρ) :=
  if channel.isAlive && !channel.isGreeted then
    (receiveTagged greeter channel.unread).map fun read =>
      { channel with
        unread := read.2
        isGreeted := true }
  else none

/-- The server reads a request and sends so many bytes of the reply. It dies after some
requests, and when it does not get to the end of a reply. -/
def serve (reader : Receiver ρ) (answer : ρ → Option (List UInt8 × Bool)) (sent : ℕ)
    (channel : Channel ρ) : Option (Channel ρ) :=
  if channel.isAlive && channel.isGreeted then do
    let (request, rest) ← receiveTagged reader channel.unread
    let (reply, goesOn) ← answer request
    let tag := (channel.unread.head?.map Prod.snd).getD 0
    some { channel with
      unread := rest
      replies := channel.replies ++ tagged tag (reply.take sent)
      answers := channel.answers ++ [⟨tag, request, reply⟩]
      isAlive := goesOn && decide (reply.length ≤ sent) }
  else none

/-- The server dies. -/
def die (channel : Channel ρ) : Channel ρ := { channel with isAlive := false }

/-! ## What a request finds -/

/-- Requests that the server reads and does not answer. -/
def Silent (reader : Receiver ρ) (isSilent : ρ → Prop) (bytes : List UInt8) : Prop :=
  ∃ messages : List (List UInt8), bytes = messages.flatten ∧
    ∀ message ∈ messages, ∃ request, Reads reader message request ∧ isSilent request

/-- The greeting, while the server has not read it, and silent requests. -/
def Front (greeter : Receiver α) (reader : Receiver ρ) (isSilent : ρ → Prop)
    (channel : Channel ρ) (bytes : List UInt8) : Prop :=
  ∃ greeting requests, bytes = greeting ++ requests ∧ Silent reader isSilent requests ∧
    if channel.isGreeted then greeting = [] else ∃ value, Reads greeter greeting value

/-- Nothing is there to be read by the client, and the server has these bytes of a
request before it, behind what it does not answer. -/
def Pending (greeter : Receiver α) (reader : Receiver ρ) (isSilent : ρ → Prop)
    (channel : Channel ρ) (tag : ℕ) (bytes : List UInt8) : Prop :=
  channel.replies = [] ∧ (channel.isAlive = true → ∃ front,
    channel.unread = front ++ tagged tag bytes ∧
      Front greeter reader isSilent channel (untagged front))

/-- No reply is there, and none will come. -/
def Settled (greeter : Receiver α) (reader : Receiver ρ) (isSilent : ρ → Prop)
    (channel : Channel ρ) : Prop :=
  channel.replies = [] ∧ (channel.isAlive = true →
    Front greeter reader isSilent channel (untagged channel.unread))

/-- The request was read. The client has this much left of the fields of the reply; of
those, not all were sent if the server has died. -/
def Answered (channel : Channel ρ) (tag : ℕ) (request : ρ) (read left : List UInt8) : Prop :=
  ∃ answer ∈ channel.answers, answer.tag = tag ∧ answer.request = request ∧
    answer.reply = read ++ left ∧ ∃ sent, channel.replies = tagged tag (left.take sent) ∧
      (channel.isAlive = true →
        left.length ≤ sent ∧ channel.unread = [] ∧ channel.isGreeted = true)

/-! ## What operations make of it -/

section Operations

variable {greeter : Receiver α} {reader : Receiver ρ} {isSilent : ρ → Prop}
  {answer : ρ → Option (List UInt8 × Bool)} {channel next : Channel ρ} {request : ρ}
  {bytes block read left : List UInt8} {sent : ℕ}

theorem silent_nil : Silent reader isSilent [] := ⟨[], rfl, fun _ hmem => by cases hmem⟩

theorem Silent.append {first second : List UInt8} (hfirst : Silent reader isSilent first)
    (hsecond : Silent reader isSilent second) : Silent reader isSilent (first ++ second) := by
  obtain ⟨messages, rfl, hmessages⟩ := hfirst
  obtain ⟨messages', rfl, hmessages'⟩ := hsecond
  refine ⟨messages ++ messages', List.flatten_append.symm, fun message hmem => ?_⟩
  rcases List.mem_append.mp hmem with hmem | hmem
  · exact hmessages message hmem
  · exact hmessages' message hmem

theorem silent_of_reads (hreads : Reads reader bytes request) (hsilent : isSilent request) :
    Silent reader isSilent bytes := by
  refine ⟨[bytes], by simp, fun message hmem => ?_⟩
  rw [List.mem_singleton.mp hmem]
  exact ⟨request, hreads, hsilent⟩

theorem Front.append (hfront : Front greeter reader isSilent channel bytes)
    (hsilent : Silent reader isSilent block) :
    Front greeter reader isSilent channel (bytes ++ block) := by
  obtain ⟨greeting, requests, rfl, hrequests, hgreeting⟩ := hfront
  exact ⟨greeting, requests ++ block, List.append_assoc .., hrequests.append hsilent, hgreeting⟩

theorem settled_iff_pending (tag : ℕ) : Settled greeter reader isSilent channel ↔
    Pending greeter reader isSilent channel tag [] := by
  constructor
  · intro hsettled
    exact ⟨hsettled.1, fun halive => ⟨channel.unread, (List.append_nil _).symm,
      hsettled.2 halive⟩⟩
  · intro hpending
    refine ⟨hpending.1, fun halive => ?_⟩
    obtain ⟨front, hunread, hfront⟩ := hpending.2 halive
    rw [tagged_nil, List.append_nil] at hunread
    rw [hunread]
    exact hfront

/-- The client goes on with its request. -/
theorem Pending.write (hpending : Pending greeter reader isSilent channel tag bytes)
    (block : List UInt8) :
    Pending greeter reader isSilent (channel.write tag block) tag (bytes ++ block) := by
  refine ⟨hpending.1, fun halive => ?_⟩
  obtain ⟨front, hunread, hfront⟩ := hpending.2 halive
  refine ⟨front, ?_, hfront⟩
  show channel.unread ++ tagged tag block = _
  rw [hunread, tagged_append, List.append_assoc]

/-- A request that is not answered changes nothing. -/
theorem Settled.write (hsettled : Settled greeter reader isSilent channel)
    (hsilent : Silent reader isSilent block) (tag : ℕ) :
    Settled greeter reader isSilent (channel.write tag block) := by
  refine ⟨hsettled.1, fun halive => ?_⟩
  show Front greeter reader isSilent _ (untagged (channel.unread ++ tagged tag block))
  rw [untagged_append, untagged_tagged]
  exact (hsettled.2 halive).append hsilent

theorem greet_eq_some (hgreet : greet greeter channel = some next) :
    channel.isAlive = true ∧ channel.isGreeted = false ∧ ∃ value rest,
      receiveTagged greeter channel.unread = some (value, rest) ∧
        next = { channel with
          unread := rest
          isGreeted := true } := by
  rw [greet] at hgreet
  split at hgreet
  · rename_i hready
    obtain ⟨⟨value, rest⟩, hread, rfl⟩ := Option.map_eq_some_iff.mp hgreet
    simp only [Bool.and_eq_true, Bool.not_eq_true'] at hready
    exact ⟨hready.1, hready.2, value, rest, hread, rfl⟩
  · cases hgreet

theorem serve_eq_some (hserve : serve reader answer sent channel = some next) :
    channel.isAlive = true ∧ channel.isGreeted = true ∧ ∃ request rest reply goesOn,
      receiveTagged reader channel.unread = some (request, rest) ∧
        answer request = some (reply, goesOn) ∧
        next = { channel with
          unread := rest
          replies := channel.replies ++
            tagged ((channel.unread.head?.map Prod.snd).getD 0) (reply.take sent)
          answers := channel.answers ++
            [⟨(channel.unread.head?.map Prod.snd).getD 0, request, reply⟩]
          isAlive := goesOn && decide (reply.length ≤ sent) } := by
  rw [serve] at hserve
  split at hserve
  · rename_i hready
    obtain ⟨⟨request, rest⟩, hread, hserve⟩ := Option.bind_eq_some_iff.mp hserve
    obtain ⟨⟨reply, goesOn⟩, hanswer, hserve⟩ := Option.bind_eq_some_iff.mp hserve
    cases hserve
    rw [Bool.and_eq_true] at hready
    exact ⟨hready.1, hready.2, request, rest, reply, goesOn, hread, hanswer, rfl⟩
  · cases hserve

/-- The server reads the greeting in front of the request. -/
theorem Pending.greet (hpending : Pending greeter reader isSilent channel tag bytes)
    (hgreet : greet greeter channel = some next) :
    Pending greeter reader isSilent next tag bytes := by
  obtain ⟨halive, hgreeted, value, rest, hread, rfl⟩ := greet_eq_some hgreet
  refine ⟨hpending.1, fun _ => ?_⟩
  obtain ⟨front, hunread, greeting, requests, hfront, hsilent, hgreeting⟩ := hpending.2 halive
  rw [if_neg (by simp [hgreeted])] at hgreeting
  obtain ⟨greeted, hreads⟩ := hgreeting
  obtain ⟨first, second, rfl, rfl, rfl⟩ : ∃ first second, front = first ++ second ∧
      untagged first = greeting ∧ untagged second = requests :=
    List.map_eq_append_iff.mp hfront
  rw [hunread, List.append_assoc, receiveTagged_append hreads] at hread
  cases hread
  exact ⟨second, rfl, [], untagged second, rfl, hsilent, rfl⟩

/-- The server reads a request. It is one that it does not answer, or the one that is
pending. -/
theorem Pending.serve (request : ρ) (hpending : Pending greeter reader isSilent channel tag bytes)
    (hanswer : ∀ request reply goesOn, isSilent request → answer request = some (reply, goesOn) →
      reply = [])
    (hrequest : reader bytes = none ∨ bytes ≠ [] ∧ Reads reader bytes request)
    (hserve : serve reader answer sent channel = some next) :
    Pending greeter reader isSilent next tag bytes ∨
      Reads reader bytes request ∧ ∃ reply goesOn, answer request = some (reply, goesOn) ∧
        Answered next tag request [] reply := by
  obtain ⟨halive, hgreeted, read, rest, reply, goesOn, hread, hreply, rfl⟩ :=
    serve_eq_some hserve
  obtain ⟨hreplies, hpending⟩ := hpending
  obtain ⟨front, hunread, greeting, requests, hfront, ⟨messages, rfl, hsilent⟩, hgreeting⟩ :=
    hpending halive
  rw [if_pos hgreeted] at hgreeting
  rw [hgreeting, List.nil_append] at hfront
  cases messages with
  | nil =>
      -- the pending request is the next one
      obtain rfl : front = [] := List.map_eq_nil_iff.mp hfront
      rw [List.nil_append] at hunread
      rcases hrequest with hnone | ⟨hbytes, hreads⟩
      · rw [hunread, receiveTagged_eq_none (by rw [untagged_tagged]; exact hnone)] at hread
        cases hread
      · have hall : receiveTagged reader (tagged tag bytes ++ []) = some (request, []) :=
          receiveTagged_append (by rw [untagged_tagged]; exact hreads)
        rw [hunread, ← List.append_nil (tagged tag bytes), hall] at hread
        cases hread
        have htag : (channel.unread.head?.map Prod.snd).getD 0 = tag := by
          rw [hunread]
          cases bytes with
          | nil => exact absurd rfl hbytes
          | cons byte bytes => rfl
        rw [htag, hreplies, List.nil_append]
        refine .inr ⟨hreads, reply, goesOn, hreply, _, List.mem_concat_self, rfl, rfl, rfl,
          sent, rfl, fun hgoes => ?_⟩
        rw [Bool.and_eq_true] at hgoes
        exact ⟨of_decide_eq_true hgoes.2, rfl, hgreeted⟩
  | cons message messages =>
      obtain ⟨request, hreads, hsilentRequest⟩ := hsilent message List.mem_cons_self
      obtain ⟨first, second, rfl, hfirst, hsecond⟩ : ∃ first second, front = first ++ second ∧
          untagged first = message ∧ untagged second = messages.flatten :=
        List.map_eq_append_iff.mp hfront
      rw [hunread, List.append_assoc, receiveTagged_append (by rw [hfirst]; exact hreads)] at hread
      cases hread
      refine .inl ⟨?_, fun _ => ⟨second, rfl, [], untagged second, rfl, ?_, ?_⟩⟩
      · simp [hreplies, hanswer _ _ _ hsilentRequest hreply]
      · exact ⟨messages, hsecond, fun other hmem => hsilent other (List.mem_cons_of_mem _ hmem)⟩
      · rw [if_pos hgreeted]

theorem Pending.die (hpending : Pending greeter reader isSilent channel tag bytes) :
    Pending greeter reader isSilent channel.die tag bytes :=
  ⟨hpending.1, fun halive => by cases halive⟩

/-- Once the whole request was read, the server has nothing to read. -/
theorem Answered.greet_eq_none (hanswered : Answered channel tag request read left) :
    greet greeter channel = none := by
  obtain ⟨_, _, _, _, _, _, _, hunread⟩ := hanswered
  rw [greet, if_neg]
  rw [Bool.and_eq_true]
  rintro ⟨halive, hgreeted⟩
  rw [(hunread halive).2.2] at hgreeted
  cases hgreeted

theorem Answered.serve_eq_none (hanswered : Answered channel tag request read left)
    (hempty : reader [] = none) : Channel.serve reader answer sent channel = none := by
  cases hserve : Channel.serve reader answer sent channel with
  | none => rfl
  | some next =>
      obtain ⟨halive, -, request, rest, -, -, hread, -⟩ := serve_eq_some hserve
      obtain ⟨_, _, _, _, _, _, _, hunread⟩ := hanswered
      rw [(hunread halive).2.1, receiveTagged_eq_none hempty] at hread
      cases hread

theorem Answered.die (hanswered : Answered channel tag request read left) :
    Answered channel.die tag request read left := by
  obtain ⟨answer, hmem, htag, hrequest, hreply, sent, hreplies, -⟩ := hanswered
  exact ⟨answer, hmem, htag, hrequest, hreply, sent, hreplies, fun halive => by cases halive⟩

/-- When all of the reply was read, there is no other one. -/
theorem Answered.settled (hanswered : Answered channel tag request read []) :
    Settled greeter reader isSilent channel := by
  obtain ⟨_, _, _, _, _, sent, hreplies, hunread⟩ := hanswered
  refine ⟨by rw [hreplies, List.take_nil, tagged_nil], fun halive => ?_⟩
  obtain ⟨-, hunread, hgreeted⟩ := hunread halive
  rw [hunread]
  exact ⟨[], [], rfl, silent_nil, by rw [if_pos hgreeted]⟩

/-- The client reads the next field of the reply, or finds out that the server has died
before it sent all of it. -/
theorem Answered.tryTake {field : List UInt8} {result : Option (List (UInt8 × ℕ))}
    (hanswered : Answered channel tag request read (field ++ left))
    (htake : channel.tryTake field.length = some (result, next)) :
    (result = some (tagged tag field) ∧ Answered next tag request (read ++ field) left) ∨
      (result = none ∧ Settled greeter reader isSilent next) := by
  obtain ⟨answer, hmem, htag, hrequest, hreply, sent, hreplies, hunread⟩ := hanswered
  have hlength : channel.replies.length = min sent (field ++ left).length := by
    rw [hreplies, length_tagged, List.length_take]
  rw [Channel.tryTake] at htake
  split at htake
  · rename_i hroom
    cases htake
    have hsent : field.length ≤ sent := by omega
    have hsplit : (field ++ left).take sent = field ++ left.take (sent - field.length) := by
      rw [List.take_append, List.take_of_length_le hsent]
    rw [hsplit, tagged_append] at hreplies
    refine .inl ⟨?_, answer, hmem, htag, hrequest, ?_, sent - field.length, ?_, fun halive => ?_⟩
    · rw [hreplies, List.take_left' (length_tagged tag field)]
    · rw [hreply, List.append_assoc]
    · show channel.replies.drop field.length = _
      rw [hreplies, List.drop_left' (length_tagged tag field)]
    · obtain ⟨hall, hunread⟩ := hunread halive
      rw [List.length_append] at hall
      exact ⟨by omega, hunread⟩
  · split at htake
    · cases htake
    · rename_i halive
      cases htake
      exact .inr ⟨rfl, rfl, fun hdead => absurd hdead halive⟩

/-- The client gives up waiting for the reply to a request that was not read. -/
theorem Pending.tryTake {result : Option (List (UInt8 × ℕ))} (hsize : 0 < size)
    (hpending : Pending greeter reader isSilent channel tag bytes)
    (htake : channel.tryTake size = some (result, next)) :
    result = none ∧ Settled greeter reader isSilent next := by
  rw [Channel.tryTake, hpending.1, List.length_nil, if_neg (Nat.not_le.mpr hsize)] at htake
  split at htake
  · cases htake
  · rename_i halive
    cases htake
    exact ⟨rfl, rfl, fun hdead => absurd hdead halive⟩

end Operations

end Channel

end Library
