/-
# Messages in a stream of bytes

A receiver takes bytes from the front of a stream and may fail. That it reads a message
as a value is stated for every rest of the stream, so that receivers compose as messages
are appended. A receiver that is repeated reads a sequence of messages.
-/

import Mathlib.Data.List.Basic
import Mathlib.Data.Int.Notation
import Mathlib.Tactic.Positivity

namespace Library

/-- What takes bytes from the front of a stream, or fails. -/
abbrev Receiver (α : Type) := StateT (List UInt8) Option α

variable {α β γ : Type} {receiver : Receiver α} {message : List UInt8} {value : α}

/-- Take so many bytes; fewer are a failure. -/
def receive (size : ℕ) : Receiver (List UInt8) := fun stream =>
  if size ≤ stream.length then some (stream.take size, stream.drop size) else none

/-- Take so many bytes in one call, if there is a limit to what a call takes. -/
def receiveWithin (limit : Option ℕ) (size : ℕ) : Receiver (List UInt8) :=
  if ∀ most ∈ limit, size ≤ most then receive size else failure

/-- The receiver reads the message as the value, whatever follows. -/
def Reads (receiver : Receiver α) (message : List UInt8) (value : α) : Prop :=
  ∀ rest, receiver (message ++ rest) = some (value, rest)

/-- The receiver cannot read the message, whatever follows. -/
def Refuses (receiver : Receiver α) (message : List UInt8) : Prop :=
  ∀ rest, receiver (message ++ rest) = none

/-! ## Composition -/

theorem reads_pure (value : α) : Reads (pure value : Receiver α) [] value := fun _ => rfl

/-- Messages are appended as receivers are composed. -/
theorem Reads.bind {next : α → Receiver β} {message' : List UInt8} {value' : β}
    (hfirst : Reads receiver message value) (hsecond : Reads (next value) message' value') :
    Reads (receiver >>= next) (message ++ message') value' := by
  intro rest
  rw [List.append_assoc]
  show (receiver (message ++ (message' ++ rest))).bind _ = _
  rw [hfirst]
  exact hsecond rest

theorem Reads.refuses_bind {next : α → Receiver β} {message' : List UInt8}
    (hfirst : Reads receiver message value) (hsecond : Refuses (next value) message') :
    Refuses (receiver >>= next) (message ++ message') := by
  intro rest
  rw [List.append_assoc]
  show (receiver (message ++ (message' ++ rest))).bind _ = _
  rw [hfirst]
  exact hsecond rest

theorem Refuses.bind {next : α → Receiver β} (message' : List UInt8)
    (hfirst : Refuses receiver message) : Refuses (receiver >>= next) (message ++ message') := by
  intro rest
  rw [List.append_assoc]
  show (receiver (message ++ (message' ++ rest))).bind _ = _
  rw [hfirst]
  rfl

/-- The last step that takes bytes. -/
theorem Reads.bind_last {next : α → Receiver β} {value' : β} (hreads : Reads receiver message value)
    (hnext : Reads (next value) [] value') : Reads (receiver >>= next) message value' := by
  have hbind := hreads.bind hnext
  rw [List.append_nil] at hbind
  exact hbind

theorem Reads.bind_pure (f : α → β) (hreads : Reads receiver message value) :
    Reads (receiver >>= fun read => pure (f read)) message (f value) :=
  hreads.bind_last (reads_pure (f value))

theorem Reads.map (f : α → β) (hreads : Reads receiver message value) :
    Reads (f <$> receiver) message (f value) := hreads.bind_pure f

theorem Refuses.map (f : α → β) (hrefuses : Refuses receiver message) :
    Refuses (f <$> receiver) message := by
  intro rest
  show (receiver (message ++ rest)).bind _ = _
  rw [hrefuses]
  rfl

theorem Refuses.bind_last {next : α → Receiver β} (hrefuses : Refuses receiver message) :
    Refuses (receiver >>= next) message := by
  have hbind : Refuses (receiver >>= next) (message ++ []) := hrefuses.bind []
  rw [List.append_nil] at hbind
  exact hbind

theorem reads_receive {size : ℕ} (hsize : message.length = size) :
    Reads (receive size) message message := by
  intro rest
  have hroom : size ≤ (message ++ rest).length := by
    rw [List.length_append]
    omega
  rw [receive, if_pos hroom, List.take_left' hsize, List.drop_left' hsize]

theorem refuses_failure : Refuses (failure : Receiver α) message := fun _ => rfl

theorem reads_receiveWithin {limit : Option ℕ} {size : ℕ} (hsize : message.length = size)
    (hlimit : ∀ most ∈ limit, size ≤ most) :
    Reads (receiveWithin limit size) message message := by
  rw [receiveWithin, if_pos hlimit]
  exact reads_receive hsize

/-- More than a call takes is not received. -/
theorem refuses_receiveWithin {limit : Option ℕ} {size : ℕ}
    (hlimit : ¬ ∀ most ∈ limit, size ≤ most) : Refuses (receiveWithin limit size) message := by
  rw [receiveWithin, if_neg hlimit]
  exact refuses_failure

/-! ## What a success means -/

/-- A receiver that succeeds has read a message. -/
def Steady (receiver : Receiver α) : Prop :=
  ∀ stream value rest, receiver stream = some (value, rest) →
    ∃ message, stream = message ++ rest ∧ Reads receiver message value

theorem steady_pure (value : α) : Steady (pure value : Receiver α) := by
  intro stream read rest hread
  cases hread
  exact ⟨[], rfl, reads_pure value⟩

theorem steady_failure : Steady (failure : Receiver α) := fun _ _ _ hread => by cases hread

theorem steady_bind {next : α → Receiver β} (hfirst : Steady receiver)
    (hnext : ∀ value, Steady (next value)) : Steady (receiver >>= next) := by
  intro stream result rest hread
  obtain ⟨⟨value, middle⟩, hvalue, hrest⟩ := Option.bind_eq_some_iff.mp hread
  obtain ⟨message, rfl, hmessage⟩ := hfirst _ _ _ hvalue
  obtain ⟨message', rfl, hmessage'⟩ := hnext value _ _ _ hrest
  exact ⟨message ++ message', (List.append_assoc ..).symm, hmessage.bind hmessage'⟩

theorem steady_map (f : α → β) (hfirst : Steady receiver) : Steady (f <$> receiver) :=
  steady_bind hfirst fun value => steady_pure (f value)

theorem steady_receive (size : ℕ) : Steady (receive size) := by
  intro stream read rest hread
  rw [receive] at hread
  split at hread
  · cases hread
    refine ⟨stream.take size, (List.take_append_drop ..).symm, reads_receive ?_⟩
    rw [List.length_take]
    omega
  · cases hread

theorem steady_receiveWithin (limit : Option ℕ) (size : ℕ) :
    Steady (receiveWithin limit size) := by
  rw [receiveWithin]
  split
  · exact steady_receive size
  · exact steady_failure

theorem steady_ite {condition : Prop} [Decidable condition] {other : Receiver α}
    (hfirst : Steady receiver) (hother : Steady other) :
    Steady (if condition then receiver else other) := by
  split
  · exact hfirst
  · exact hother

/-- The beginning of a message is not read as one, whether the message is read or
refused. -/
theorem Steady.incomplete {start missing : List UInt8} (value : α) (hsteady : Steady receiver)
    (hmissing : missing ≠ [])
    (hwhole : Reads receiver (start ++ missing) value ∨ Refuses receiver (start ++ missing)) :
    receiver start = none := by
  cases hread : receiver start with
  | none => rfl
  | some result =>
      obtain ⟨read, rest⟩ := result
      obtain ⟨message, rfl, hmessage⟩ := hsteady _ _ _ hread
      have hlonger := hmessage (rest ++ missing)
      rw [← List.append_assoc] at hlonger
      rcases hwhole with hreads | hrefuses
      · have hexact := hreads []
        rw [List.append_nil, hlonger] at hexact
        obtain ⟨-, hnothing⟩ := List.append_eq_nil_iff.mp (Prod.mk.inj (Option.some.inj hexact)).2
        exact absurd hnothing hmissing
      · have hnothing := hrefuses []
        rw [List.append_nil, hlonger] at hnothing
        cases hnothing

/-! ## Numbers -/

/-- The bytes of a number, the least significant first. -/
def littleEndian : ℕ → ℕ → List UInt8
  | 0, _ => []
  | width + 1, number => UInt8.ofNat number :: littleEndian width (number / 256)

/-- The number of some bytes. -/
def ofLittleEndian : List UInt8 → ℕ
  | [] => 0
  | byte :: bytes => byte.toNat + 256 * ofLittleEndian bytes

@[simp]
theorem length_littleEndian (width number : ℕ) : (littleEndian width number).length = width := by
  induction width generalizing number with
  | zero => rfl
  | succ width ih => rw [littleEndian, List.length_cons, ih]

/-- The bytes that there are keep the number modulo their range. -/
theorem ofLittleEndian_littleEndian (width number : ℕ) :
    ofLittleEndian (littleEndian width number) = number % 256 ^ width := by
  induction width generalizing number with
  | zero => simp [littleEndian, ofLittleEndian, Nat.mod_one]
  | succ width ih =>
      rw [littleEndian, ofLittleEndian, ih, Nat.pow_succ', Nat.mod_mul]
      simp

/-- Receive a number of so many bytes. -/
def receiveNat (width : ℕ) : Receiver ℕ := ofLittleEndian <$> receive width

theorem reads_receiveNat {width number : ℕ} (hrange : number < 256 ^ width) :
    Reads (receiveNat width) (littleEndian width number) number := by
  have hreads := (reads_receive (length_littleEndian width number)).map ofLittleEndian
  rw [ofLittleEndian_littleEndian, Nat.mod_eq_of_lt hrange] at hreads
  exact hreads

/-- The bytes of a signed number, in two's complement. -/
def littleEndianInt (width : ℕ) (number : ℤ) : List UInt8 :=
  littleEndian width (number % ((256 ^ width : ℕ) : ℤ)).toNat

/-- Receive a signed number of so many bytes. -/
def receiveInt (width : ℕ) : Receiver ℤ :=
  (fun number : ℕ => Int.bmod number (256 ^ width)) <$> receiveNat width

@[simp]
theorem length_littleEndianInt (width : ℕ) (number : ℤ) :
    (littleEndianInt width number).length = width := length_littleEndian _ _

theorem reads_receiveInt {width : ℕ} {number : ℤ}
    (hrange : Int.bmod number (256 ^ width) = number) :
    Reads (receiveInt width) (littleEndianInt width number) number := by
  have hpositive : (0 : ℤ) < ((256 ^ width : ℕ) : ℤ) := by positivity
  have hlow : 0 ≤ number % ((256 ^ width : ℕ) : ℤ) := Int.emod_nonneg _ hpositive.ne'
  have hhigh : (number % ((256 ^ width : ℕ) : ℤ)).toNat < 256 ^ width := by
    have hlt := Int.emod_lt_of_pos number hpositive
    omega
  have hreads := Reads.map (fun read : ℕ => Int.bmod read (256 ^ width)) (reads_receiveNat hhigh)
  rw [Int.toNat_of_nonneg hlow, Int.emod_bmod, hrange] at hreads
  exact hreads

/-! ## Sequences of messages -/

/-- Receive up to so many messages; one that fails stays in the stream. -/
def receiveUpTo (receiver : Receiver α) : ℕ → List UInt8 → List α × List UInt8
  | 0, stream => ([], stream)
  | count + 1, stream =>
      match receiver stream with
      | none => ([], stream)
      | some (value, rest) =>
          let (values, left) := receiveUpTo receiver count rest
          (value :: values, left)

/-- Receive messages until one fails. Every message takes a byte at least. -/
def receiveAll (receiver : Receiver α) (stream : List UInt8) : List α × List UInt8 :=
  receiveUpTo receiver stream.length stream

/-- Receive so many messages. -/
def receiveMany (receiver : Receiver α) : ℕ → Receiver (List α)
  | 0 => pure []
  | count + 1 => do
      let value ← receiver
      let values ← receiveMany receiver count
      pure (value :: values)

theorem steady_receiveMany (hsteady : Steady receiver) (count : ℕ) :
    Steady (receiveMany receiver count) := by
  induction count with
  | zero => exact steady_pure []
  | succ count ih =>
      exact steady_bind hsteady fun value => steady_bind ih fun values => steady_pure _

variable {encode : α → List UInt8} {view : α → β} {reader : Receiver β} {values : List α}

theorem reads_receiveMany (hreads : ∀ value ∈ values, Reads reader (encode value) (view value)) :
    Reads (receiveMany reader values.length) (values.flatMap encode) (values.map view) := by
  induction values with
  | nil => exact reads_pure []
  | cons value values ih =>
      rw [List.flatMap_cons]
      have htail := ih fun other hmem => hreads other (List.mem_cons_of_mem _ hmem)
      exact (hreads value List.mem_cons_self).bind
        (htail.bind_pure fun values => view value :: values)

theorem Refuses.not_reads (hrefuses : Refuses receiver message) :
    ¬ Reads receiver message value := by
  intro hreads
  have hsome := hreads []
  rw [hrefuses []] at hsome
  cases hsome

/-- Messages of which each is read or refused are read as a whole exactly when each of
them is read. -/
theorem receiveUpTo_eq_iff {count : ℕ} (hempty : reader [] = none)
    (hcases : ∀ value ∈ values,
      Reads reader (encode value) (view value) ∨ Refuses reader (encode value))
    (hcount : values.length ≤ count) :
    receiveUpTo reader count (values.flatMap encode) = (values.map view, []) ↔
      ∀ value ∈ values, Reads reader (encode value) (view value) := by
  induction values generalizing count with
  | nil =>
      cases count with
      | zero => simp [receiveUpTo]
      | succ count => simp [receiveUpTo, hempty]
  | cons value values ih =>
      obtain ⟨count, rfl⟩ : ∃ less, count = less + 1 :=
        ⟨count - 1, by rw [List.length_cons] at hcount; omega⟩
      have htail := ih (fun other hother => hcases other (List.mem_cons_of_mem _ hother))
        (Nat.le_of_succ_le_succ hcount)
      rw [List.flatMap_cons, receiveUpTo, List.forall_mem_cons, ← htail]
      rcases hcases value List.mem_cons_self with hreads | hrefuses
      · rw [hreads]
        simp [hreads, Prod.ext_iff]
      · rw [hrefuses]
        simp [hrefuses.not_reads]

theorem length_le_length_flatMap (hsome : ∀ value ∈ values, encode value ≠ []) :
    values.length ≤ (values.flatMap encode).length := by
  induction values with
  | nil => exact Nat.zero_le _
  | cons value values ih =>
      have hhead := List.length_pos_iff.mpr (hsome value List.mem_cons_self)
      have htail := ih fun other hother => hsome other (List.mem_cons_of_mem _ hother)
      rw [List.flatMap_cons, List.length_append, List.length_cons]
      omega

/-- **Sequences of messages** are received exactly when each message is. -/
theorem receiveAll_eq_iff (hempty : reader [] = none)
    (hsome : ∀ value ∈ values, encode value ≠ [])
    (hcases : ∀ value ∈ values,
      Reads reader (encode value) (view value) ∨ Refuses reader (encode value)) :
    receiveAll reader (values.flatMap encode) = (values.map view, []) ↔
      ∀ value ∈ values, Reads reader (encode value) (view value) :=
  receiveUpTo_eq_iff hempty hcases (length_le_length_flatMap hsome)

end Library
