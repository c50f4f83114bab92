/-
# Replies go to those who asked

The lock of a node keeps the threads apart that use the connection of the node, and an
instance replies once to each request but a compaction. What a thread reads is therefore
the reply to its own request.

One lock is enough as long as one node has the connection. A handler that cannot send the
configuration closes its descriptor and leaves the number in the node, and the number
becomes that of another connection, which then has two locks.
-/

import SockMyPort.Sistema.ConfigurationFirst

namespace SockMyPort.Sistema.Sockets

open SockMyPort.Commons SockMyPort.Protocolo SockMyPort.Coordinador SockMyPort.Instancia Library

namespace Connections

/-- Every complete reply that a thread has read is the reply to the request of the same
critical section; and where nobody is inside, no reply is left and none will come. -/
structure Paired (state : Connections) : Prop where
  own : ∀ reading ∈ state.readings, ∃ connection, OwnReply (state.channel connection) reading
  noneLeft : ∀ name connection, state.insideAt name = none →
    (state.fdAt name).bind state.descriptors = some connection → state.isPending name = false →
      Settled (state.channel connection)

variable {setup : EntriesSetup} {events : List LineEvent} {finish : Connections}

/-- **Replies go to those who asked** in every run after the configuration in which a
descriptor is closed when it is unused. -/
theorem paired_of_runs (hrun : OrderlyRuns setup init events finish) : finish.Paired := by
  obtain ⟨hwired, htalking⟩ := wired_and_talking_of_runs hrun
  constructor
  · intro reading hmem
    obtain ⟨connection, -, hown⟩ := htalking.own reading hmem
    exact ⟨connection, hown⟩
  · intro name connection hnone hopen hpending
    exact htalking.settled name connection hnone hopen
      (hwired.awaits_of_isPending hnone hpending hopen)

/-- A SET of a key with a value. -/
def requestSet : Request :=
  ⟨⟨.set true (literal [75]) (literal [86]), by
    refine ⟨fun key hkey => ?_, fun isNew key value hsame => ?_⟩
    · cases hkey
      decide
    · cases hsame
      decide⟩, rfl⟩

/-- The six messages of the request. -/
def sendsSet (name : CString) : List LineEvent := List.replicate 6 (.send name false)

/-- A request is popped, sent, answered and the answer read. -/
def asks : List LineEvent :=
  .pop 0 requestSet :: .lock (.handler 0) noKeys :: sendsSet (literal [65]) ++
    .serve 0 (.set .ok 1) 16 :: List.replicate 3 (.recv (literal [65]))

/-- One instance that connects and is asked something. -/
theorem paired_of_runs_asks : ∃ finish, OrderlyRuns smallSetup init (connects ++ asks) finish ∧
    finish.readings.length = 1 ∧ finish.Paired := by
  have hcheck : ((step smallSetup).execute init (connects ++ asks)).any
      (fun state => state.readings.length == 1) = true := by decide +kernel
  cases hexec : (step smallSetup).execute init (connects ++ asks) with
  | none =>
      rw [hexec] at hcheck
      cases hcheck
  | some finish =>
      rw [hexec] at hcheck
      have hrun := orderlyRuns_of_allows (by decide) hexec
      exact ⟨finish, hrun, beq_iff_eq.mp hcheck, paired_of_runs hrun⟩

/-- The first instance dies before its configuration, and its descriptor becomes that of the
second. A third connects under the name of the first. The test and the request share
the connection of the second, whose replies are mixed. -/
def sharesDescriptor : List LineEvent :=
  List.flatten [
    [.accept 5, .receiveName 0 (some (literal [65])), .add 0, .die 0, .lock (.handler 0) noKeys,
      .send (literal [65]) true, .close 0],
    [.accept 5, .receiveName 1 (some (literal [66])), .add 1, .lock (.handler 1) noKeys,
      .send (literal [66]) false, .readConfig 1],
    [.accept 6, .receiveName 2 (some (literal [65])), .add 2, .pop 1 requestSet,
      .lock (.handler 1) noKeys, .lock (.handler 2) noKeys],
    sendsSet (literal [66]),
    [.send (literal [65]) false, .serve 1 (.set .ok 1) 16, .serve 1 .other 4,
      .recv (literal [65])],
    List.replicate 3 (.recv (literal [66]))]

/-- The reading has bytes of another critical section. -/
def isMixed (reading : Reading) : Bool := reading.bytes.any fun byte => byte.2 != reading.tag

theorem not_ownReply {channel : Channel ReceivedRequest} {reading : Reading}
    (hmixed : isMixed reading = true) : ¬ OwnReply channel reading := by
  rintro ⟨answer, -, -, -, hbytes⟩
  obtain ⟨byte, hmem, hother⟩ := List.any_eq_true.mp hmixed
  rw [hbytes] at hmem
  obtain ⟨value, -, rfl⟩ := List.mem_map.mp hmem
  simp at hother

/-- A reply that was read was not all the reply to the request. -/
theorem not_paired :
    ¬ ∀ (setup : EntriesSetup) (events : List LineEvent) (finish : Connections),
      (step setup).Runs (fun state event => state.waitsForConfiguration event = true) init events
        finish → finish.Paired := by
  intro hclaim
  have hcheck : ((step smallSetup).execute init sharesDescriptor).any
      (fun state => state.readings.any isMixed) = true := by decide +kernel
  cases hexec : (step smallSetup).execute init sharesDescriptor with
  | none =>
      rw [hexec] at hcheck
      cases hcheck
  | some finish =>
      rw [hexec] at hcheck
      obtain ⟨reading, hmem, hmixed⟩ := List.any_eq_true.mp hcheck
      have hallows :
          (step smallSetup).allows waitsForConfiguration init sharesDescriptor = true := by
        decide +kernel
      have hrun := PartialStep.runs_of_allows hallows hexec
      obtain ⟨connection, hown⟩ := (hclaim smallSetup _ finish hrun).own reading hmem
      exact not_ownReply hmixed hown

end Connections

end SockMyPort.Sistema.Sockets
