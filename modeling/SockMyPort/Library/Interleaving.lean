/-
# Writers of one stream

Several writers share a stream. A message is written in blocks, and nothing keeps the
blocks of two messages apart. When a message is begun only while no other one is
unfinished, the stream is a sequence of whole messages.
-/

import SockMyPort.Library.Runs

namespace Library

universe u v

/-- A stream and those who write it. -/
structure Line (μ : Type u) (β : Type v) where
  /-- What was written. -/
  stream : List β
  /-- The blocks that each writer has left of its message. -/
  left : List (List (List β))
  /-- The messages, in the order in which they were begun. -/
  begun : List μ

/-- What a writer does. -/
inductive Writing (μ : Type u)
  /-- It writes the first block of a message. -/
  | start (writer : ℕ) (message : μ)
  /-- It writes the next block. -/
  | proceed (writer : ℕ)

namespace Line

variable {μ : Type u} {β : Type v} {blocks : μ → List (List β)} {line next : Line μ β}
  {writing : Writing μ}

/-- Nobody has written anything. -/
def init (writers : ℕ) : Line μ β := ⟨[], List.replicate (writers + 1) [], []⟩

/-- A writer writes the first of its blocks. -/
def write (line : Line μ β) (writer : ℕ) : List (List β) → Option (Line μ β)
  | [] => none
  | block :: left =>
      some { line with stream := line.stream ++ block, left := line.left.set writer left }

/-- Each block is written at once. A writer ends a message before it begins another. -/
def step (blocks : μ → List (List β)) : PartialStep (Line μ β) (Writing μ) := fun line writing =>
  match writing with
  | .start writer message =>
      match line.left[writer]? with
      | some [] => { line with begun := line.begun ++ [message] }.write writer (blocks message)
      | _ => none
  | .proceed writer =>
      match line.left[writer]? with
      | some left => line.write writer left
      | none => none

/-- Nobody is in the middle of a message. -/
def isQuiet (line : Line μ β) : Bool := line.left.all List.isEmpty

/-- A message is begun only while nobody is in the middle of one. -/
def startsAlone (line : Line μ β) : Writing μ → Bool
  | .start _ _ => line.isQuiet
  | .proceed _ => true

/-- What is missing of the messages that were begun. -/
def unfinished (line : Line μ β) : List β := line.left.flatten.flatten

/-- Messages without gaps. -/
def messages (blocks : μ → List (List β)) (messages : List μ) : List β :=
  messages.flatMap fun message => (blocks message).flatten

/-- The stream, once the messages that were begun are finished, is a sequence of
messages. -/
def Whole (blocks : μ → List (List β)) (line : Line μ β) : Prop :=
  line.stream ++ line.unfinished = messages blocks line.begun

/-- One writer at most is in the middle of a message. -/
def Orderly (blocks : μ → List (List β)) (line : Line μ β) : Prop :=
  ∃ writers writer left, writer < writers ∧
    line.left = (List.replicate writers []).set writer left ∧
    line.stream ++ left.flatten = messages blocks line.begun

theorem flatten_set_replicate {writers writer : ℕ} (left : List (List β))
    (hwriter : writer < writers) :
    ((List.replicate writers []).set writer left).flatten = left := by
  rw [List.set_eq_take_append_cons_drop, if_pos (by rw [List.length_replicate]; exact hwriter)]
  simp

theorem Orderly.whole (horderly : line.Orderly blocks) : line.Whole blocks := by
  obtain ⟨writers, writer, left, hwriter, hleft, hstream⟩ := horderly
  rw [Whole, unfinished, hleft, flatten_set_replicate left hwriter]
  exact hstream

/-- Without an unfinished message the stream is a sequence of messages. -/
theorem Whole.stream_eq (hwhole : line.Whole blocks) (hquiet : line.isQuiet = true) :
    line.stream = messages blocks line.begun := by
  have hleft : line.left.flatten = [] := by
    apply List.flatten_eq_nil_iff.mpr
    intro left hmem
    exact List.isEmpty_iff.mp (List.all_eq_true.mp hquiet left hmem)
  have hnone : line.unfinished = [] := by rw [unfinished, hleft, List.flatten_nil]
  rw [Whole, hnone, List.append_nil] at hwhole
  exact hwhole

theorem orderly_init (writers : ℕ) : (init writers : Line μ β).Orderly blocks :=
  ⟨writers + 1, 0, [], Nat.succ_pos _, rfl, rfl⟩

theorem messages_concat (begun : List μ) (message : μ) :
    messages blocks (begun ++ [message]) = messages blocks begun ++ (blocks message).flatten := by
  simp [messages]

/-- A writer begins while the others are quiet. -/
theorem Orderly.start {writer : ℕ} {message : μ} (horderly : line.Orderly blocks)
    (hquiet : line.isQuiet = true) (hstep : step blocks line (.start writer message) = some next) :
    next.Orderly blocks := by
  have hstream := horderly.whole.stream_eq hquiet
  have hleft : line.left = List.replicate line.left.length [] := by
    refine List.eq_replicate_of_mem fun left hmem => ?_
    exact List.isEmpty_iff.mp (List.all_eq_true.mp hquiet left hmem)
  simp only [step] at hstep
  split at hstep
  · rename_i hwriter
    cases hblocks : blocks message with
    | nil =>
        rw [hblocks] at hstep
        cases hstep
    | cons block left =>
        rw [hblocks] at hstep
        obtain rfl := Option.some.inj hstep
        have hlt := (List.getElem?_eq_some_iff.mp hwriter).1
        refine ⟨line.left.length, writer, left, hlt, congrArg (List.set · writer left) hleft, ?_⟩
        show line.stream ++ block ++ left.flatten = messages blocks (line.begun ++ [message])
        rw [messages_concat, hstream, hblocks, List.flatten_cons, List.append_assoc]
  · cases hstep

/-- The writer in the middle of a message goes on. -/
theorem Orderly.proceed {writer : ℕ} (horderly : line.Orderly blocks)
    (hstep : step blocks line (.proceed writer) = some next) : next.Orderly blocks := by
  obtain ⟨writers, current, left, hcurrent, hleft, hstream⟩ := horderly
  simp only [step] at hstep
  cases hget : line.left[writer]? with
  | none =>
      rw [hget] at hstep
      cases hstep
  | some mine =>
      rw [hget] at hstep
      cases mine with
      | nil => cases hstep
      | cons block rest =>
          obtain rfl := Option.some.inj hstep
          rw [hleft, List.getElem?_set] at hget
          by_cases heq : current = writer
          · rw [if_pos heq, if_pos (by simpa [heq] using hcurrent)] at hget
            obtain rfl := Option.some.inj hget
            refine ⟨writers, current, rest, hcurrent, ?_, ?_⟩
            · show line.left.set writer rest = _
              rw [hleft, ← heq, List.set_set]
            · show line.stream ++ block ++ rest.flatten = _
              rw [List.append_assoc]
              exact hstream
          · -- the other writers have nothing left
            rw [if_neg heq, List.getElem?_replicate] at hget
            split at hget <;> cases hget

/-- **Messages stay whole** when each is begun alone. -/
theorem orderly_of_runs {writers : ℕ} {events : List (Writing μ)} {finish : Line μ β}
    (hrun : (step blocks).Runs (fun line writing => line.startsAlone writing = true)
      (init writers) events finish) : finish.Orderly blocks := by
  refine hrun.invariant (Orderly blocks) ?_ (orderly_init writers)
  intro line writing next horderly halone hstep
  cases writing with
  | start writer message => exact horderly.start halone hstep
  | proceed writer => exact horderly.proceed hstep

end Line

end Library
