/-
# The queues partition the registered ESIs

`move_esi_from_and_to_queue` adds an ESI to the second queue whether or not it was
in the first, and a client is registered whether or not its handshake succeeds.
The queues are a partition as long as no event does either of these, and no ESI
is woken by the release of its own keys while it dies.
-/

import SockMyPort.Planificador.Operations

namespace SockMyPort.Planificador

open SockMyPort.Commons Library

variable {config : Config} {state next : PlanificadorState config}

/-! ## The condition -/

/-- Every operation of the event is orderly: a client is registered after a
successful handshake, an ESI is preempted, finished or blocked only from a queue
that it is in, and an ESI that dies does not wait first for a key of its own. -/
def orderlyEvent (state : PlanificadorState config) (event : Event) : Bool :=
  performKey.allows (fun dispatcher operation => decide (dispatcher.Orderly operation))
    state.dispatcher (operations state event)

/-- The invariant: the dispatcher behind the scheduler is partitioned. -/
structure PartitionInvariant (state : PlanificadorState config) : Prop where
  genuine : state.dispatcher.Genuine (-1)
  partitioned : state.dispatcher.Partitioned

theorem partitionInvariant_init (config : Config) :
    PartitionInvariant (PlanificadorState.init config) where
  genuine := genuine_init config
  partitioned := ⟨rfl, Multiset.nodup_zero, rfl,
    by simp [PlanificadorState.init, PlanificadorState.dispatcher, PlanificadorState.ids]⟩

/-- Orderly events keep the partition. -/
theorem PartitionInvariant.mainStep {event : Event} (hinv : PartitionInvariant state)
    (horderly : orderlyEvent state event = true)
    (hstep : Planificador.mainStep config state event = some next) : PartitionInvariant next := by
  have hexec := performs_mainStep hstep hinv.genuine
  refine ⟨genuine_of_execute hinv.genuine hexec, ?_⟩
  exact (PartialStep.runs_of_allows horderly hexec).invariant _
    (fun hpart hok hperform => hpart.perform (of_decide_eq_true hok) hperform) hinv.partitioned

/-! ## The result -/

/-- The queues in which an ESI can be. -/
def PlanificadorState.queues (state : PlanificadorState config) : List ℤ :=
  state.gNewQueue ++ state.gReadyQueue ++ state.gExecutionQueue ++ state.gBlockedQueue

/-- What the program is meant to keep about its queues. -/
structure QueuePartition (state : PlanificadorState config) : Prop where
  /-- A registered ESI is in exactly one queue, exactly once. -/
  once : ∀ information ∈ state.gEsiBursts, state.queues.count information.esiId = 1
  /-- A registered ESI is connected. -/
  connected : ∀ information ∈ state.gEsiBursts, information.esiId ∈ state.connectedFds
  /-- Who is in a queue is registered. -/
  registered : ∀ fd ∈ state.queues, ∃ information ∈ state.gEsiBursts, information.esiId = fd
  /-- A blocked ESI waits for exactly one key, and any other ESI for none. -/
  waits : ∀ fd, (state.gEsisSexpectingKeys.countP fun sexpecting => sexpecting.esiFd = fd) =
    if fd ∈ state.gBlockedQueue then 1 else 0

theorem coe_queues (state : PlanificadorState config) :
    (state.queues : Multiset ℤ) = state.dispatcher.fresh + state.dispatcher.ready +
      state.dispatcher.running + state.dispatcher.blocked := rfl

theorem count_blocked_le_one (hpart : state.dispatcher.Partitioned) (fd : ℤ) :
    state.gBlockedQueue.count fd ≤ 1 := by
  have hle := hpart.count_le_one fd
  have hcount : state.dispatcher.blocked.count fd = state.gBlockedQueue.count fd :=
    Multiset.coe_count fd _
  omega

/-- The abstract partition, in the words of the scheduler. -/
theorem PartitionInvariant.queuePartition (hinv : PartitionInvariant state) :
    QueuePartition state where
  once information hmem := by
    have hknown : information.esiId ∈ state.dispatcher.known :=
      Multiset.mem_coe.mpr (List.mem_map_of_mem hmem)
    have hcount := Multiset.count_eq_one_of_mem hinv.partitioned.nodup hknown
    rwa [← hinv.partitioned.queues, ← coe_queues, Multiset.coe_count] at hcount
  connected information hmem :=
    Multiset.mem_coe.mp (hinv.partitioned.connected _
      (Multiset.mem_coe.mpr (List.mem_map_of_mem hmem)))
  registered fd hmem := by
    have hknown := hinv.partitioned.known_of_mem (coe_queues state ▸ Multiset.mem_coe.mpr hmem)
    exact List.mem_map.mp (Multiset.mem_coe.mp hknown)
  waits fd := by
    have hwaiting : (state.gEsisSexpectingKeys.map EsiSexpectingKey.esiFd : Multiset ℤ) =
        (state.gBlockedQueue : Multiset ℤ) := by
      rw [← show state.dispatcher.blocked = (state.gBlockedQueue : Multiset ℤ) from rfl,
        ← hinv.partitioned.waiting]
      simp only [PlanificadorState.dispatcher, List.map_map]
      rfl
    have hcount := congrArg (Multiset.count fd) hwaiting
    rw [Multiset.coe_count, Multiset.coe_count] at hcount
    have heq : (state.gEsisSexpectingKeys.countP fun sexpecting => sexpecting.esiFd = fd) =
        state.gBlockedQueue.count fd := by
      rw [← hcount, List.count, List.countP_map]
      refine List.countP_congr fun sexpecting _ => ?_
      simp
    rw [heq]
    split
    · rename_i hmem
      have hle := count_blocked_le_one hinv.partitioned fd
      have hpos := List.count_pos_iff.mpr hmem
      omega
    · rename_i hmem
      exact List.count_eq_zero.mpr hmem

/-- **The queues partition the registered ESIs** in every state that is reached by
orderly events. -/
theorem queuePartition_of_runs {finish : PlanificadorState config} {events : List Event}
    (hrun : (mainStep config).Runs (fun state event => orderlyEvent state event = true)
      (PlanificadorState.init config) events finish) :
    QueuePartition finish := by
  have hinv : PartitionInvariant finish :=
    hrun.invariant _ (fun hinv horderly hstep => hinv.mainStep horderly hstep)
      (partitionInvariant_init config)
  exact hinv.queuePartition

/-- Two ESIs connect and one of them executes. -/
theorem queuePartition_of_runs_execute :
    ∃ finish : PlanificadorState (smallConfig .sjfcd), finish.gExecutionQueue = [10] ∧
      QueuePartition finish := by
  obtain ⟨finish, hrun, hcheck⟩ := PartialStep.exists_run_of_execute
    ((mainStep (smallConfig .sjfcd)).guarded orderlyEvent) (PlanificadorState.init _)
    [.newClient 10 true, .newClient 11 true, .endOfTurn [],
      .executingEsi (.code .executionSuccess) (.code .didntFinishScript) [] []]
    (fun state => decide (state.gExecutionQueue = [10])) (by decide)
  exact ⟨finish, of_decide_eq_true hcheck,
    queuePartition_of_runs (PartialStep.runs_of_guarded hrun)⟩

/-- An ESI reports that it is blocked while a new ESI is pending: the preemption
that follows adds it to the ready queue as well. -/
theorem not_queuePartition :
    ¬ ∀ (config : Config) (finish : PlanificadorState config) (events : List Event),
      (mainStep config).FreeRuns (PlanificadorState.init config) events finish →
        QueuePartition finish := by
  intro hclaim
  obtain ⟨finish, hrun, hcheck⟩ := PartialStep.exists_run_of_execute
    (mainStep (smallConfig .sjfcd)) (PlanificadorState.init _)
    [.newClient 10 true, .console (.bloquear keyK 9), .endOfTurn [], .newClient 11 true,
      .coordinator (.isThisKeyBlocked keyK), .coordinator .isKeyBlockedByExecutingEsi,
      .executingEsi (.code .iAmBlocked) (.code .other) [] []]
    (fun state => state.gEsiBursts.any fun information =>
      decide (state.queues.count information.esiId = 2)) (by decide)
  obtain ⟨information, hmem, hcount⟩ := List.any_eq_true.mp hcheck
  have honce := (hclaim _ finish _ hrun).once information hmem
  rw [of_decide_eq_true hcount] at honce
  cases honce

end SockMyPort.Planificador
