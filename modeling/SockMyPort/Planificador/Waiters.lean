/-
# Nobody waits for a free key without prospects

A release drops the lock of a key and wakes the first ESI that waits for it. The
others wait on, for a key that is free, and depend on the woken ESI: it takes the key
when it executes again. `sock_my_port`, `release_resources` and
`block_by_console_procedure` do not look at the turn that an ESI has, so that an ESI
that is killed before it executes again takes the turn with it.
-/

import SockMyPort.Planificador.Operations
import SockMyPort.Library.Turns

namespace SockMyPort.Planificador

open SockMyPort.Commons Library

variable {config : Config} {state next : PlanificadorState config}

/-! ## The property -/

/-- An ESI that waits waits for a locked key, or for an ESI that is ready or executes,
was woken by a release of the key and has not executed since. -/
def NoOrphanedWaiter (state : PlanificadorState config) : Prop :=
  ∀ sexpecting ∈ state.gEsisSexpectingKeys,
    (∃ blocker ∈ state.gLockedKeys, blocker.key = sexpecting.key) ∨
    ∃ turn ∈ state.turns, turn.key = sexpecting.key ∧
      turn.esiFd ∈ state.gReadyQueue ++ state.gExecutionQueue

/-- Every operation of the event hands on what it takes: an ESI that reports a result,
leaves or is blocked is not the last that has the turn to take a free key for which
another waits, an ESI that leaves is not given one of its own keys while another waits
for it, and an ESI reports that it is blocked only on a key that is still locked or
that another ESI has the turn to take. -/
def handsOnEvent (state : PlanificadorState config) (event : Event) : Bool :=
  performKey.allows (fun dispatcher operation => decide (dispatcher.HandsOn operation))
    state.dispatcher (operations state event)

/-! ## The invariant -/

theorem served_init (config : Config) : (PlanificadorState.init config).dispatcher.Served := by
  intro wait hwait
  cases hwait

/-- The invariant: the dispatcher behind the scheduler serves whoever waits. -/
structure ServiceInvariant (state : PlanificadorState config) : Prop where
  genuine : state.dispatcher.Genuine (-1)
  served : state.dispatcher.Served

/-- An event that hands on its turns keeps every waiter served. -/
theorem ServiceInvariant.mainStep {event : Event} (hinv : ServiceInvariant state)
    (hhands : handsOnEvent state event = true)
    (hstep : Planificador.mainStep config state event = some next) : ServiceInvariant next := by
  have hexec := performs_mainStep hstep hinv.genuine
  refine ⟨genuine_of_execute hinv.genuine hexec, ?_⟩
  exact (PartialStep.runs_of_allows hhands hexec).invariant _
    (fun hserved hok hperform => hserved.perform (of_decide_eq_true hok) hperform) hinv.served

/-- The abstract service, in the words of the scheduler. -/
theorem ServiceInvariant.noOrphanedWaiter (hinv : ServiceInvariant state) :
    NoOrphanedWaiter state := by
  intro sexpecting hmem
  have hwait : sexpecting.wait ∈ state.dispatcher.waiting := List.mem_map_of_mem hmem
  rcases hinv.served _ hwait with hheld | ⟨turn, hturn, hkey, hplace⟩
  · rw [keys_dispatcher] at hheld
    exact .inl (List.mem_map.mp hheld)
  · obtain ⟨woken, hwoken, rfl⟩ := List.mem_map.mp hturn
    exact .inr ⟨woken, hwoken, hkey, hplace⟩

/-! ## The result -/

/-- **Nobody waits for a free key that no one has the turn to take** in every state
that is reached by events that hand on their turns. -/
theorem noOrphanedWaiter_of_runs {finish : PlanificadorState config} {events : List Event}
    (hrun : (mainStep config).Runs (fun state event => handsOnEvent state event = true)
      (PlanificadorState.init config) events finish) :
    NoOrphanedWaiter finish := by
  have hinv : ServiceInvariant finish :=
    hrun.invariant _ (fun hinv hhands hstep => hinv.mainStep hhands hstep)
      ⟨genuine_init config, served_init config⟩
  exact hinv.noOrphanedWaiter

/-- Three ESIs want the key `k`; the first takes it and is blocked by the key `j`, which
the console locked, and the others wait. -/
def contention : List Event :=
  [.console (.bloquear keyJ 9), .newClient 10 true, .newClient 11 true, .newClient 12 true,
    .endOfTurn [],
    .coordinator (.isThisKeyBlocked keyK), .coordinator .blockKey,
    .executingEsi (.code .executionSuccess) (.code .didntFinishScript) [] [],
    .coordinator (.isThisKeyBlocked keyJ), .coordinator .isKeyBlockedByExecutingEsi,
    .executingEsi (.code .iAmBlocked) (.code .other) [] [],
    .coordinator (.isThisKeyBlocked keyK), .coordinator .isKeyBlockedByExecutingEsi,
    .executingEsi (.code .iAmBlocked) (.code .other) [] [],
    .coordinator (.isThisKeyBlocked keyK), .coordinator .isKeyBlockedByExecutingEsi,
    .executingEsi (.code .iAmBlocked) (.code .other) [] []]

/-- The owner is killed, the second ESI executes with the turn to take `k`, and the
third waits for the key, which is free. -/
theorem noOrphanedWaiter_of_runs_contention :
    ∃ finish : PlanificadorState (smallConfig .fifo),
      finish.gExecutionQueue = [11] ∧ finish.gEsisSexpectingKeys = [⟨12, keyK⟩] ∧
      finish.gLockedKeys = [⟨keyJ, -1⟩] ∧ NoOrphanedWaiter finish := by
  obtain ⟨finish, hrun, hcheck⟩ := PartialStep.exists_run_of_execute
    ((mainStep (smallConfig .fifo)).guarded handsOnEvent) (PlanificadorState.init _)
    (contention ++ [.console (.kill 1), .endOfTurn []])
    (fun state => decide (state.gExecutionQueue = [11] ∧
      state.gEsisSexpectingKeys = [⟨12, keyK⟩] ∧ state.gLockedKeys = [⟨keyJ, -1⟩]))
    (by decide +kernel)
  obtain ⟨hexecuting, hwaiting, hlocked⟩ := of_decide_eq_true hcheck
  exact ⟨finish, hexecuting, hwaiting, hlocked,
    noOrphanedWaiter_of_runs (PartialStep.runs_of_guarded hrun)⟩

/-- The second ESI is killed too before it executes: the key is free, nobody has the
turn to take it and the third ESI waits. -/
theorem not_noOrphanedWaiter :
    ¬ ∀ (config : Config) (finish : PlanificadorState config) (events : List Event),
      (mainStep config).FreeRuns (PlanificadorState.init config) events finish →
        NoOrphanedWaiter finish := by
  intro hclaim
  obtain ⟨finish, hrun, hcheck⟩ := PartialStep.exists_run_of_execute
    (mainStep (smallConfig .fifo)) (PlanificadorState.init _)
    (contention ++ [.console (.kill 1), .console (.kill 2), .endOfTurn []])
    (fun state => decide (state.gEsisSexpectingKeys = [⟨12, keyK⟩] ∧
      state.gLockedKeys = [⟨keyJ, -1⟩] ∧ state.turns = [])) (by decide +kernel)
  obtain ⟨hwaiting, hlocked, hturns⟩ := of_decide_eq_true hcheck
  have hserved := hclaim _ finish _ hrun ⟨12, keyK⟩
    (by rw [hwaiting]; exact List.mem_singleton_self _)
  rw [hlocked, hturns] at hserved
  rcases hserved with ⟨blocker, hblocker, hkey⟩ | ⟨turn, hturn, -⟩
  · rw [List.mem_singleton.mp hblocker] at hkey
    exact absurd hkey (by decide)
  · cases hturn

end SockMyPort.Planificador
