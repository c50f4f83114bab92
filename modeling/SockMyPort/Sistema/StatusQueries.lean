/-
# A query of the console can stop the scheduler

When it has said that a key is blocked, the scheduler keeps its semaphore until the second
question. The answer to a query of the console can come before that question. The scheduler
then waits for the semaphore, which only the message behind this answer would give back.
-/

import SockMyPort.Sistema.Progress

namespace SockMyPort.Sistema

open SockMyPort.Commons SockMyPort.Planificador Library

variable {config : Config} {connection next : SchedulerConnection config}

/-! ## What a step leaves alone -/

/-- The messages to the scheduler are followed by others at most, and its semaphore and what
it has answered are the same. -/
structure Beside (connection next : SchedulerConnection config) : Prop where
  messages : ∃ more,
    next.sistema.toPlanificador = connection.sistema.toPlanificador ++ more
  mutex : KeepsMutex connection.sistema.planificador next.sistema.planificador
  answered : next.answered = connection.answered

theorem beside_take (connection : SchedulerConnection config) (who : ℕ) (esi : Esi)
    (succeeds : Bool) (item : FromScheduler) :
    Beside connection (connection.take who esi succeeds item) := by
  simp only [SchedulerConnection.take]
  split
  · exact ⟨⟨[], (List.append_nil _).symm⟩, .refl _, rfl⟩
  · rename_i answer
    split
    · exact ⟨⟨[], (List.append_nil _).symm⟩, .refl _, rfl⟩
    · rename_i sistema hrecv
      have hmutex : KeepsMutex connection.sistema.planificador sistema.planificador := by
        rw [KeepsMutex, planificador_of_recvAnswer hrecv]
        rfl
      have hgone : ∀ went : SchedulerConnection config,
          Beside connection went → Beside connection (went.post esi.phase answer.code) := by
        intro went hwent
        simp only [SchedulerConnection.post]
        split
        · exact hwent
        · exact ⟨hwent.messages, hwent.mutex, hwent.answered⟩
      exact hgone _ ⟨⟨[], (List.append_nil _).symm⟩, hmutex, rfl⟩

theorem beside_thread {who : ℕ} {succeeds : Bool}
    (hthread : connection.thread who succeeds = some next) : Beside connection next := by
  obtain ⟨esi, -, hrest⟩ := Option.bind_eq_some_iff.mp hthread
  -- what a thread reads was on the connection before, or in the shared answer
  have htook : ∀ before : SchedulerConnection config, before.sistema = connection.sistema →
      before.answered = connection.answered → ∀ item,
        Beside connection (before.take who esi succeeds item) := by
    intro before hsistema hanswered item
    obtain ⟨hmessages, hmutex, hsame⟩ := beside_take before who esi succeeds item
    exact ⟨hsistema ▸ hmessages, hsistema ▸ hmutex, hsame.trans hanswered⟩
  split at hrest
  · cases hrest
  · cases hphase : esi.phase with
    | sent | requested =>
        simp only [hphase] at hrest
        obtain ⟨sistema, hgoes, rfl⟩ := Option.map_eq_some_iff.mp hrest
        refine ⟨⟨[], (List.append_nil _).symm⟩, ?_, rfl⟩
        rw [KeepsMutex, SchedulerConnection.goOn, planificador_of_thread hgoes]
        rfl
    | recvKeyState | blockKey | unblockKey =>
        simp only [hphase] at hrest
        split at hrest
        · rename_i count answer _ _
          obtain rfl := Option.some.inj hrest
          exact htook { connection with pendingProtocolSem := count } rfl rfl (.answer answer)
        · cases hrest
    | recvBlockedByExecutingEsi =>
        simp only [hphase] at hrest
        split at hrest
        · rename_i item rest _
          obtain rfl := Option.some.inj hrest
          exact htook { connection with incoming := rest } rfl rfl item
        · cases hrest
    | _ =>
        simp only [hphase] at hrest
        cases hrest

theorem beside_handlerGoesOn (hhandler : connection.handlerGoesOn = some next) :
    Beside connection next := by
  simp only [SchedulerConnection.handlerGoesOn] at hhandler
  split at hhandler
  · split at hhandler
    · cases hhandler
    · obtain rfl := Option.some.inj hhandler
      exact ⟨⟨[], (List.append_nil _).symm⟩, .refl _, rfl⟩
  · split at hhandler
    · cases hhandler
    · obtain rfl := Option.some.inj hhandler
      exact ⟨⟨[], (List.append_nil _).symm⟩, .refl _, rfl⟩
    · obtain rfl := Option.some.inj hhandler
      exact ⟨⟨[], (List.append_nil _).symm⟩, .refl _, rfl⟩
  · obtain rfl := Option.some.inj hhandler
    exact ⟨⟨_, rfl⟩, .refl _, rfl⟩

/-- Only the scheduler takes its messages. -/
theorem beside_of_connectionStep {action : ConnectionAction}
    (hmessage : action ≠ .process .coordinatorMessage)
    (hstep : connectionStep config connection action = some next) : Beside connection next := by
  simp only [connectionStep] at hstep
  split at hstep
  · cases hstep
  · split at hstep
    · exact absurd rfl hmessage
    · exact beside_thread hstep
    · rename_i action hother hthread
      obtain ⟨sistema, hsistema, rfl⟩ := Option.map_eq_some_iff.mp hstep
      have haside := aside_step (fun heq => hother (heq ▸ rfl))
        (fun who succeeds heq => hthread who succeeds (heq ▸ rfl)) hsistema
      exact ⟨⟨[], haside.messages.trans (List.append_nil _).symm⟩, haside.mutex, rfl⟩
    · obtain ⟨message, -, hsend⟩ := Option.bind_eq_some_iff.mp hstep
      obtain rfl := Option.some.inj hsend
      exact ⟨⟨_, rfl⟩, .refl _, rfl⟩
    · exact beside_handlerGoesOn hstep
    · obtain ⟨_, -, rfl⟩ := Option.map_eq_some_iff.mp hstep
      exact ⟨⟨[], (List.append_nil _).symm⟩, .refl _, rfl⟩

/-! ## The scheduler waits -/

/-- The scheduler waits for its semaphore with the answer to a query before it. -/
structure Stopped (connection : SchedulerConnection config) : Prop where
  message : connection.sistema.toPlanificador.head?.map Prod.fst = some .keyStatus
  mutex : connection.sistema.planificador.mutexCoordinador = 0

namespace Stopped

/-- It handles no message. -/
theorem coordinatorMessage_eq_none (h : Stopped connection) :
    connection.coordinatorMessage = none := by
  obtain ⟨⟨message, sender⟩, hhead, hmessage⟩ := Option.map_eq_some_iff.mp h.message
  obtain rfl : message = .keyStatus := hmessage
  obtain ⟨rest, hrest⟩ := List.head?_eq_some_iff.mp hhead
  simp only [SchedulerConnection.coordinatorMessage, SistemaState.coordinatorMessage, hrest,
    coordinatorBranch, semWait, h.mutex, List.head?_cons, Option.bind_eq_bind, Option.bind_some,
    Option.bind_none]

theorem ne_coordinatorMessage (h : Stopped connection) {action : ConnectionAction}
    (hstep : connectionStep config connection action = some next) :
    action ≠ .process .coordinatorMessage := by
  rintro rfl
  simp only [connectionStep, h.coordinatorMessage_eq_none, ite_self] at hstep
  cases hstep

/-- **The step lemma**: nothing else gives the semaphore back. -/
theorem step (h : Stopped connection) {action : ConnectionAction}
    (hstep : connectionStep config connection action = some next) : Stopped next := by
  obtain ⟨⟨more, hmore⟩, hmutex, -⟩ :=
    beside_of_connectionStep (h.ne_coordinatorMessage hstep) hstep
  refine ⟨?_, Eq.trans hmutex h.mutex⟩
  rw [hmore, List.head?_append_of_ne_nil]
  · exact h.message
  · intro hnil
    have hmessage := h.message
    rw [hnil] at hmessage
    cases hmessage

/-- **A scheduler that is stopped** handles no message of the coordinator and sends no answer
any more, whatever the others do. -/
theorem silent_of_runs (h : Stopped connection) {later : List ConnectionAction}
    {finish : SchedulerConnection config}
    (hrun : (connectionStep config).FreeRuns connection later finish) :
    .process .coordinatorMessage ∉ later ∧ finish.answered = connection.answered := by
  induction hrun with
  | refl => exact ⟨List.not_mem_nil, rfl⟩
  | head _ hstep _ ih =>
      obtain ⟨hlater, hanswered⟩ := ih (h.step hstep)
      have hfirst := h.ne_coordinatorMessage hstep
      refine ⟨fun hmem => ?_, hanswered.trans (beside_of_connectionStep hfirst hstep).answered⟩
      obtain heq | hmem := List.mem_cons.mp hmem
      · exact hfirst heq.symm
      · exact hlater hmem

end Stopped

/-! ## How it comes to that -/

/-- The key `k` is blocked from the start. -/
def blockedConfig : Config := { smallConfig .fifo with blockedKeys := [keyK] }

/-- The console asks for the state of `k` between the two questions of a GET. -/
def queriedBetween : List ConnectionAction :=
  [.process (.connect 10 true [.get keyK]), .process (.endOfTurn []), .process (.esi 0),
    .process (.thread 0 true), .send 0, .handler, .keyStatus keyK, .handler,
    .process .coordinatorMessage, .handler]

/-- **A query of the console stops the scheduler** while a GET is in flight: it handles no
message and sends no answer any more. -/
theorem stopped_queriedBetween : ∃ start : SchedulerConnection blockedConfig,
    (connectionStep blockedConfig).FreeRuns (.init _) queriedBetween start ∧
      start.sistema.phaseOf 0 = some (.recvKeyState (.get keyK)) ∧
      ∀ (later : List ConnectionAction) (finish : SchedulerConnection blockedConfig),
        (connectionStep blockedConfig).FreeRuns start later finish →
          .process .coordinatorMessage ∉ later ∧ finish.answered = start.answered := by
  obtain ⟨start, hrun, hcheck⟩ := PartialStep.exists_run_of_execute
    (connectionStep blockedConfig) (.init _) queriedBetween
    (fun start : SchedulerConnection blockedConfig =>
      decide (start.sistema.toPlanificador.head?.map Prod.fst = some .keyStatus) &&
      decide (start.sistema.planificador.mutexCoordinador = 0) &&
      decide (start.sistema.phaseOf 0 = some (.recvKeyState (.get keyK)))) (by decide)
  simp only [Bool.and_eq_true, decide_eq_true_eq] at hcheck
  obtain ⟨⟨hmessage, hmutex⟩, hphase⟩ := hcheck
  exact ⟨start, hrun, hphase, fun later finish hlater =>
    Stopped.silent_of_runs ⟨hmessage, hmutex⟩ hlater⟩

end SockMyPort.Sistema
