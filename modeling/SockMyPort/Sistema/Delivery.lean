/-
# Threads that begin their exchanges alone

The steps of the connection, seen as steps of the only exchange. Nothing is lost and nobody
takes the answer to another thread when an exchange is begun only while there is no other
one.
-/

import SockMyPort.Sistema.OwnAnswers

namespace SockMyPort.Sistema

open SockMyPort.Commons SockMyPort.Planificador Library

variable {config : Config}

/-! ## Who waits for an answer -/

theorem awaitedIn_eq {esis : List Esi} {who : ℕ} {esi : Esi} (hget : esis[who]? = some esi) :
    awaitedIn esis who = esi.awaited := by
  rw [awaitedIn, hget, Option.bind_some]

/-- A change that keeps the phases. -/
theorem awaitedIn_map {change : Esi → Esi} (hphase : ∀ esi, (change esi).phase = esi.phase)
    (esis : List Esi) (who : ℕ) : awaitedIn (esis.map change) who = awaitedIn esis who := by
  rw [awaitedIn, awaitedIn, List.getElem?_map]
  cases esis[who]? with
  | none => rfl
  | some esi =>
      show Esi.awaited (change esi) = esi.awaited
      rw [Esi.awaited, Esi.awaited, hphase]

theorem awaitedIn_set {esis : List Esi} {who : ℕ} {esi : Esi} (hget : esis[who]? = some esi)
    (changed : Esi) (other : ℕ) :
    awaitedIn (esis.set who changed) other =
      Function.update (awaitedIn esis) who changed.awaited other := by
  have hlt := (List.getElem?_eq_some_iff.mp hget).1
  by_cases heq : other = who
  · subst heq
    rw [Function.update_self, awaitedIn, List.getElem?_set_self hlt, Option.bind_some]
  · rw [Function.update_of_ne heq, awaitedIn, List.getElem?_set_ne (Ne.symm heq), awaitedIn]

/-- A change of an ESI that waits as it did. -/
theorem awaitedIn_set_of_eq {esis : List Esi} {who : ℕ} {esi changed : Esi}
    (hget : esis[who]? = some esi) (hsame : changed.awaited = esi.awaited) (other : ℕ) :
    awaitedIn (esis.set who changed) other = awaitedIn esis other := by
  rw [awaitedIn_set hget, hsame, ← awaitedIn_eq hget, Function.update_eq_self]

theorem awaitedIn_concat {esi : Esi} (hidle : esi.awaited = none) (esis : List Esi) (who : ℕ) :
    awaitedIn (esis ++ [esi]) who = awaitedIn esis who := by
  rcases Nat.lt_trichotomy who esis.length with hlt | heq | hgt
  · rw [awaitedIn, List.getElem?_append_left hlt, awaitedIn]
  · subst heq
    rw [awaitedIn, List.getElem?_concat_length, Option.bind_some, hidle, awaitedIn,
      List.getElem?_eq_none (Nat.le_refl _), Option.bind_none]
  · rw [awaitedIn, awaitedIn, List.getElem?_eq_none (by simp; omega),
      List.getElem?_eq_none (by omega)]

theorem Esi.phase_hear (connectedFds orders : List ℤ) (esi : Esi) :
    (esi.hear connectedFds orders).phase = esi.phase := by
  rw [Esi.hear]
  split <;> rfl

/-- An ESI does not wait for the scheduler when it goes on. -/
theorem Esi.awaited_run {esi next : Esi} (hrun : esi.run = some next) :
    next.awaited = none ∧ esi.awaited = none := by
  simp only [Esi.run] at hrun
  split at hrun
  swap
  · cases hrun
  split at hrun
  · split at hrun
    · rw [← Option.some.inj hrun]
      exact ⟨rfl, by rw [Esi.awaited, ‹esi.phase = .waitForExecutionOrder›]; rfl⟩
    · cases hrun
  · rename_i hphase
    rw [← Option.some.inj hrun]
    exact ⟨rfl, by rw [Esi.awaited, hphase]; rfl⟩
  · rename_i hphase
    rw [← Option.some.inj hrun]
    exact ⟨rfl, by rw [Esi.awaited, hphase]; rfl⟩
  · rename_i hphase
    rw [← Option.some.inj hrun]
    exact ⟨rfl, by rw [Esi.awaited, hphase]; rfl⟩
  · rename_i hphase
    rw [← Option.some.inj hrun]
    have hnone : Esi.awaited { esi with alive := false } = none := by
      show (if esi.phase.awaits then some esi.phase else none) = none
      rw [hphase]
      rfl
    exact ⟨hnone, hnone⟩
  · cases hrun

theorem Esi.phase_recv {esi read : Esi} {garbage : ExecutionResult} {received : Received}
    (hrecv : esi.recv garbage = some (received, read)) : read.phase = esi.phase := by
  simp only [Esi.recv] at hrecv
  split at hrecv
  · rw [← (Prod.mk.inj (Option.some.inj hrecv)).2]
  · split at hrecv
    · cases hrecv
    · rw [← (Prod.mk.inj (Option.some.inj hrecv)).2]

theorem Esi.phase_recvResult {esi read : Esi} {garbage scriptGarbage : ExecutionResult}
    {result scriptEnd : Received}
    (hrecv : esi.recvResult garbage scriptGarbage = some (result, scriptEnd, read)) :
    read.phase = esi.phase := by
  obtain ⟨⟨received, middle⟩, hfirst, hrest⟩ := Option.bind_eq_some_iff.mp hrecv
  have hmiddle := Esi.phase_recv hfirst
  dsimp only at hrest
  split at hrest
  · obtain ⟨⟨code, ended⟩, hsecond, hend⟩ := Option.bind_eq_some_iff.mp hrest
    obtain ⟨-, hpair⟩ := Prod.mk.inj (Option.some.inj hend)
    rw [← (Prod.mk.inj hpair).2, Esi.phase_recv hsecond, hmiddle]
  · obtain ⟨-, hpair⟩ := Prod.mk.inj (Option.some.inj hrest)
    rw [← (Prod.mk.inj hpair).2, hmiddle]

/-- What a step leaves alone that is neither a thread's nor about a message. -/
structure Aside (sistema next : SistemaState config) : Prop where
  awaited : ∀ who, awaitedIn next.esis who = awaitedIn sistema.esis who
  messages : next.toPlanificador = sistema.toPlanificador
  mutex : KeepsMutex sistema.planificador next.planificador

theorem aside_afterPlanificador {sistema : SistemaState config} {next : PlanificadorState config}
    (hmutex : KeepsMutex sistema.planificador next) :
    Aside sistema (sistema.afterPlanificador next) where
  awaited who := awaitedIn_map (Esi.phase_hear _ _) _ who
  messages := rfl
  mutex := hmutex

theorem aside_step {sistema next : SistemaState config} {action : Action}
    (hmessage : action ≠ .coordinatorMessage)
    (hthread : ∀ who succeeds, action ≠ .thread who succeeds)
    (hstep : step config sistema action = some next) : Aside sistema next := by
  cases action with
  | connect fd handshake lines =>
      obtain ⟨planificador, hmain, hrest⟩ := Option.bind_eq_some_iff.mp hstep
      have haside := aside_afterPlanificador (keepsMutex_mainStep (by simp) hmain)
      rw [← Option.some.inj hrest]
      exact ⟨fun who => (awaitedIn_concat rfl _ who).trans (haside.awaited who), rfl, haside.mutex⟩
  | coordinatorMessage => exact absurd rfl hmessage
  | executingEsi garbage scriptGarbage meanwhile unreachable =>
      obtain ⟨who, hwho, hrest⟩ := Option.bind_eq_some_iff.mp hstep
      obtain ⟨esi, hget, hrest⟩ := Option.bind_eq_some_iff.mp hrest
      obtain ⟨⟨result, scriptEnd, read⟩, hrecv, hrest⟩ := Option.bind_eq_some_iff.mp hrest
      obtain ⟨planificador, hmain, hrest⟩ := Option.bind_eq_some_iff.mp hrest
      rw [← Option.some.inj hrest]
      have hmutex := keepsMutex_mainStep (by simp) hmain
      have hsame : read.awaited = esi.awaited := by
        rw [Esi.awaited, Esi.awaited, Esi.phase_recvResult hrecv]
      refine ⟨fun other => ?_, rfl, hmutex⟩
      exact (awaitedIn_map (Esi.phase_hear _ _) _ other).trans
        (awaitedIn_set_of_eq hget hsame other)
  | endOfTurn unreachable =>
      obtain ⟨planificador, hmain, rfl⟩ := Option.map_eq_some_iff.mp hstep
      exact aside_afterPlanificador (keepsMutex_mainStep (by simp) hmain)
  | console command =>
      have hmain : mainStep config sistema.planificador (.console command) = some _ := rfl
      rw [← Option.some.inj hstep]
      exact aside_afterPlanificador (keepsMutex_mainStep (by simp) hmain)
  | esi who =>
      obtain ⟨esi, hget, hrest⟩ := Option.bind_eq_some_iff.mp hstep
      obtain ⟨changed, hrun, hrest⟩ := Option.bind_eq_some_iff.mp hrest
      obtain ⟨hafter, hbefore⟩ := Esi.awaited_run hrun
      rw [← Option.some.inj hrest]
      exact ⟨awaitedIn_set_of_eq hget (hafter.trans hbefore.symm), rfl, .refl _⟩
  | die who =>
      obtain ⟨esi, hget, hrest⟩ := Option.bind_eq_some_iff.mp hstep
      rw [← Option.some.inj hrest]
      exact ⟨awaitedIn_set_of_eq hget rfl, rfl, .refl _⟩
  | thread who succeeds => exact absurd rfl (hthread who succeeds)

/-! ## What a thread does -/

/-- A thread has gone on: it has asked for something, or its operation does not wait. -/
structure ThreadGoes (sistema next : SistemaState config) (who : ℕ) (phase : Phase) : Prop where
  planificador : next.planificador = sistema.planificador
  esis : ∃ esi, sistema.esis[who]? = some esi ∧
    next.esis = sistema.esis.set who { esi with phase := phase }
  messages : (next.toPlanificador = [] ∧ phase.awaits = false) ∨
    ∃ message, next.toPlanificador = [(message, who)] ∧ phase.awaits = true ∧
      phase.asks message = true

/-- The messages of an outcome belong to its phase. -/
def Belongs (outcome : Phase × List CoordinatorMessage) : Prop :=
  (outcome.2 = [] ∧ outcome.1.awaits = false) ∨
    ∃ message, outcome.2 = [message] ∧ outcome.1.awaits = true ∧ outcome.1.asks message = true

theorem threadGoes_advance {sistema : SistemaState config} {who : ℕ} {esi : Esi}
    {outcome : Phase × List CoordinatorMessage} (rest : List (CoordinatorAnswer × Owners))
    (hget : sistema.esis[who]? = some esi) (hsent : sistema.toPlanificador = [])
    (hbelongs : Belongs outcome) :
    ThreadGoes sistema ({ sistema with toCoordinador := rest }.advance who esi outcome) who
      outcome.1 := by
  refine ⟨rfl, ⟨esi, hget, rfl⟩, ?_⟩
  obtain ⟨hnone, hidle⟩ | ⟨message, hmessage, hasks⟩ := hbelongs
  · refine .inl ⟨?_, hidle⟩
    simp [SistemaState.advance, hsent, hnone]
  · refine .inr ⟨message, ?_, hasks⟩
    simp [SistemaState.advance, hsent, hmessage]

theorem belongs_askKeyState (operation : EsiOperation) : Belongs (askKeyState operation) := by
  rw [askKeyState]
  split
  · exact .inr ⟨_, rfl, rfl, rfl⟩
  · exact .inl ⟨rfl, rfl⟩

theorem belongs_handleRequest {operation : EsiOperation} {succeeds : Bool}
    {outcome : Phase × List CoordinatorMessage}
    (hhandle : handleRequest operation succeeds = some outcome) :
    Belongs outcome ∧ outcome.1.halfway = false := by
  cases operation with
  | get key => cases hhandle
  | set key value =>
      obtain rfl := Option.some.inj hhandle
      exact ⟨.inl ⟨rfl, rfl⟩, rfl⟩
  | store key =>
      obtain rfl := Option.some.inj hhandle
      cases succeeds with
      | true => exact ⟨.inr ⟨_, rfl, rfl, rfl⟩, rfl⟩
      | false => exact ⟨.inl ⟨rfl, rfl⟩, rfl⟩

/-- The first answer fits. -/
theorem belongs_recvKeyState {operation : EsiOperation} {answer : CoordinatorAnswer}
    (hfits : (Phase.recvKeyState operation).fits answer = true) :
    ∃ outcome, recvKeyState operation answer = some outcome ∧ Belongs outcome ∧
      (outcome.1.halfway = true ↔ answer = .keyIsBlocked) := by
  cases answer with
  | keyIsBlocked => exact ⟨_, rfl, .inr ⟨_, rfl, rfl, rfl⟩, iff_of_true rfl rfl⟩
  | keyIsNotBlocked =>
      cases operation with
      | get key => exact ⟨_, rfl, .inr ⟨_, rfl, rfl, rfl⟩, by simp [keyUnblocked, Phase.halfway]⟩
      | set key value | store key =>
          exact ⟨_, rfl, .inl ⟨rfl, rfl⟩, by simp [keyUnblocked, Phase.halfway]⟩
  | _ => cases hfits

/-- The second answer fits. -/
theorem belongs_recvBlockedByExecutingEsi {operation : EsiOperation} {answer : CoordinatorAnswer}
    (succeeds : Bool) (hfits : (Phase.recvBlockedByExecutingEsi operation).fits answer = true) :
    ∃ phase, recvBlockedByExecutingEsi operation succeeds answer = some phase ∧
      Belongs (phase, []) ∧ phase.halfway = false := by
  cases answer with
  | keyBlockedByExecutingEsi =>
      refine ⟨_, rfl, ?_⟩
      cases operation with
      | get key => exact ⟨.inl ⟨rfl, rfl⟩, rfl⟩
      | set key value | store key => cases succeeds <;> exact ⟨.inl ⟨rfl, rfl⟩, rfl⟩
  | keyNotBlockedByExecutingEsi =>
      refine ⟨_, rfl, ?_⟩
      cases operation <;> exact ⟨.inl ⟨rfl, rfl⟩, rfl⟩
  | _ => cases hfits

/-- A thread takes an answer that fits. -/
theorem threadGoes_recvAnswer {sistema : SistemaState config} {who : ℕ} {esi : Esi}
    {answer : CoordinatorAnswer} {owners : Owners} (succeeds : Bool)
    (hget : sistema.esis[who]? = some esi) (hsent : sistema.toPlanificador = [])
    (hanswer : sistema.toCoordinador = [(answer, owners)]) (hfits : esi.phase.fits answer = true) :
    ∃ next phase, sistema.recvAnswer who esi succeeds = some next ∧
      ThreadGoes sistema next who phase ∧ (phase.halfway = true ↔ answer = .keyIsBlocked) := by
  have hlast : answer ≠ .keyIsBlocked → ∀ phase : Phase, phase.halfway = false →
      (phase.halfway = true ↔ answer = .keyIsBlocked) := fun hnot phase hover =>
    iff_of_false (by simp [hover]) hnot
  cases hphase : esi.phase with
  | recvKeyState operation =>
      rw [hphase] at hfits
      obtain ⟨outcome, houtcome, hbelongs, hhalfway⟩ := belongs_recvKeyState hfits
      have hrecv := threadGoes_advance [] hget hsent hbelongs
      refine ⟨_, outcome.1, ?_, hrecv, hhalfway⟩
      simp only [SistemaState.recvAnswer, hanswer, hphase, houtcome, Option.map_some]
  | recvBlockedByExecutingEsi operation =>
      rw [hphase] at hfits
      have hnot : answer ≠ .keyIsBlocked := by
        rintro rfl
        cases hfits
      obtain ⟨phase, houtcome, hbelongs, hover⟩ := belongs_recvBlockedByExecutingEsi succeeds hfits
      obtain ⟨hplanificador, hesis, hmessages⟩ := threadGoes_advance [] hget hsent hbelongs
      cases hrecv : sistema.recvAnswer who esi succeeds with
      | none => simp [SistemaState.recvAnswer, hanswer, hphase, houtcome] at hrecv
      | some next =>
          simp only [SistemaState.recvAnswer, hanswer, hphase, houtcome, Option.map_some] at hrecv
          obtain rfl := Option.some.inj hrecv
          exact ⟨_, phase, rfl, ⟨hplanificador, hesis, hmessages⟩, hlast hnot phase hover⟩
  | blockKey operation | unblockKey operation =>
      rw [hphase] at hfits
      have hnot : answer ≠ .keyIsBlocked := by
        rintro rfl
        cases hfits
      have hbelongs : Belongs (.replied .everythingOk, []) := .inl ⟨rfl, rfl⟩
      have hrecv := threadGoes_advance [] hget hsent hbelongs
      refine ⟨_, _, ?_, hrecv, hlast hnot _ rfl⟩
      simp only [SistemaState.recvAnswer, hanswer, hphase]
  | _ =>
      rw [hphase] at hfits
      cases hfits

/-- A thread goes on that needs no answer. -/
theorem threadGoes_thread {sistema next : SistemaState config} {who : ℕ} {esi : Esi}
    {succeeds : Bool}
    (hget : sistema.esis[who]? = some esi) (hsent : sistema.toPlanificador = [])
    (hphase : (∃ operation, esi.phase = .sent operation) ∨
      ∃ operation, esi.phase = .requested operation)
    (hthread : sistema.thread who succeeds = some next) :
    ∃ phase, ThreadGoes sistema next who phase ∧ phase.halfway = false := by
  simp only [SistemaState.thread, hget, Option.bind_eq_bind, Option.bind_some] at hthread
  obtain ⟨operation, hphase⟩ | ⟨operation, hphase⟩ := hphase
  · rw [hphase] at hthread
    obtain rfl := Option.some.inj hthread
    refine ⟨_, threadGoes_advance sistema.toCoordinador hget hsent
      (belongs_askKeyState operation), ?_⟩
    rw [askKeyState]
    split <;> rfl
  · rw [hphase] at hthread
    obtain ⟨outcome, hhandle, rfl⟩ := Option.map_eq_some_iff.mp hthread
    obtain ⟨hbelongs, hover⟩ := belongs_handleRequest hhandle
    exact ⟨_, threadGoes_advance sistema.toCoordinador hget hsent hbelongs, hover⟩

/-! ## What the scheduler does -/

/-- The scheduler answers what was asked. -/
theorem answer_coordinatorBranch {state next : PlanificadorState config} {phase : Phase}
    {message : CoordinatorMessage} {answer : Option CoordinatorAnswer}
    (hasks : phase.asks message = true)
    (hmutex : state.mutexCoordinador = if phase.halfway then 0 else 1)
    (hbranch : coordinatorBranch state message = some (next, answer)) :
    ∃ code, answer = some code ∧ phase.fits code = true ∧
      LeavesMutex code next.mutexCoordinador [] := by
  cases phase with
  | recvKeyState operation =>
      cases message with
      | isThisKeyBlocked key =>
          simp only [coordinatorBranch, semWait, show state.mutexCoordinador = 1 from hmutex,
            Option.bind_eq_bind, Option.bind_some] at hbranch
          split at hbranch
          · obtain ⟨rfl, rfl⟩ := Prod.mk.inj (Option.some.inj hbranch)
            exact ⟨_, rfl, rfl, .inl ⟨rfl, rfl, rfl⟩⟩
          · obtain ⟨rfl, rfl⟩ := Prod.mk.inj (Option.some.inj hbranch)
            exact ⟨_, rfl, rfl, .inr ⟨by decide, rfl⟩⟩
      | _ => cases hasks
  | recvBlockedByExecutingEsi operation =>
      cases message with
      | isKeyBlockedByExecutingEsi =>
          obtain ⟨key, -, hrest⟩ := Option.bind_eq_some_iff.mp hbranch
          obtain ⟨response, -, hrest⟩ := Option.bind_eq_some_iff.mp hrest
          have hone : state.mutexCoordinador + 1 = 1 := congrArg (· + 1) hmutex
          cases response with
          | true =>
              obtain ⟨rfl, rfl⟩ := Prod.mk.inj (Option.some.inj hrest)
              exact ⟨_, rfl, rfl, .inr ⟨by decide, hone⟩⟩
          | false =>
              obtain ⟨rfl, rfl⟩ := Prod.mk.inj (Option.some.inj hrest)
              exact ⟨_, rfl, rfl, .inr ⟨by decide, hone⟩⟩
      | _ => cases hasks
  | blockKey operation =>
      cases message with
      | blockKey =>
          simp only [coordinatorBranch, semWait, show state.mutexCoordinador = 1 from hmutex,
            Option.bind_eq_bind, Option.bind_some] at hbranch
          obtain ⟨key, -, hrest⟩ := Option.bind_eq_some_iff.mp hbranch
          obtain ⟨blocked, hadd, hrest⟩ := Option.bind_eq_some_iff.mp hrest
          simp only [addNewKeyBlocker] at hadd
          split at hadd
          · obtain rfl := Option.some.inj hadd
            obtain ⟨rfl, rfl⟩ := Prod.mk.inj (Option.some.inj hrest)
            exact ⟨_, rfl, rfl, .inr ⟨by decide, rfl⟩⟩
          · cases hadd
      | _ => cases hasks
  | unblockKey operation =>
      cases message with
      | unlockKey key =>
          simp only [coordinatorBranch, semWait, show state.mutexCoordinador = 1 from hmutex,
            Option.bind_eq_bind, Option.bind_some] at hbranch
          obtain ⟨rfl, rfl⟩ := Prod.mk.inj (Option.some.inj hbranch)
          exact ⟨_, rfl, rfl, .inr ⟨by decide, rfl⟩⟩
      | _ => cases hasks
  | _ => cases hasks

/-- An answer to the console leaves the scheduler as it is. -/
theorem coordinatorBranch_keyStatus {state next : PlanificadorState config}
    {answer : Option CoordinatorAnswer}
    (hbranch : coordinatorBranch state .keyStatus = some (next, answer)) :
    next = state ∧ answer = none := by
  obtain ⟨entered, hwait, hrest⟩ := Option.bind_eq_some_iff.mp hbranch
  obtain ⟨rfl, rfl⟩ := Prod.mk.inj (Option.some.inj hrest)
  simp only [semWait] at hwait
  split at hwait
  · cases hwait
  · rename_i hmutex
    rw [← Option.some.inj hwait]
    have hsame := congrArg (fun count => { state with mutexCoordinador := count }) hmutex.symm
    exact ⟨hsame, rfl⟩

/-! ## The connection -/

namespace SchedulerConnection

variable {connection next : SchedulerConnection config} {who : ℕ} {key : CString}

/-- The messages that expect an answer. -/
def requestsOf (messages : List (CoordinatorMessage × ℕ)) : List (CoordinatorMessage × ℕ) :=
  messages.filter fun message => message.1 ≠ .keyStatus

/-- What the exchanges depend on. -/
def view (connection : SchedulerConnection config) : ConnectionView where
  phases := awaitedIn connection.sistema.esis
  unsent := connection.isUnsent
  requests := requestsOf connection.sistema.toPlanificador
  mutex := connection.sistema.planificador.mutexCoordinador
  incoming := connection.incoming
  handler := connection.handler
  pendingProtocol := connection.pendingProtocol
  pendingProtocolSem := connection.pendingProtocolSem
  protocolRecvSem := connection.protocolRecvSem

/-- A thread begins an exchange only while there is no other one; the second question of
`scheduler_recv_key_state` belongs to the exchange that the first one began. -/
def asksAlone (connection : SchedulerConnection config) : ConnectionAction → Bool
  | .send who =>
      (awaitedIn connection.sistema.esis who).any Phase.halfway ||
        (List.range connection.sistema.esis.length).all fun other =>
          !connection.view.inExchange other
  | _ => true

/-- What every step keeps: where the only exchange is, and that the messages which threads
are about to send belong to their phases. -/
structure Delivering (connection : SchedulerConnection config) : Prop where
  talk : ∃ pending, Talk connection.view pending ∧
    connection.answered.map .answer =
      connection.taken.map Prod.snd ++ pending.map FromScheduler.answer
  ready : ∀ message ∈ connection.unsent, ∃ phase,
    awaitedIn connection.sistema.esis message.2 = some phase ∧ phase.asks message.1 = true
  own : ∀ took ∈ connection.taken, took.2.requester = some took.1
  running : connection.exited = false

theorem inExchange_of_length_le (hlength : connection.sistema.esis.length ≤ who) :
    connection.view.inExchange who = false := by
  have hnone : awaitedIn connection.sistema.esis who = none := by
    rw [awaitedIn, List.getElem?_eq_none hlength, Option.bind_none]
  simp [ConnectionView.inExchange, view, hnone]

namespace Delivering

theorem process (hdelivering : Delivering connection) {sistema : SistemaState config}
    (haside : Aside connection.sistema sistema) :
    Delivering { connection with sistema := sistema } := by
  have hview : view { connection with sistema := sistema } = connection.view := by
    have hphases : awaitedIn sistema.esis = awaitedIn connection.sistema.esis :=
      funext haside.awaited
    simp only [view, hphases, haside.messages, show sistema.planificador.mutexCoordinador = _ from
      haside.mutex]
    rfl
  refine ⟨?_, fun message hmem => ?_, hdelivering.own, hdelivering.running⟩
  · rw [hview]
    exact hdelivering.talk
  · rw [haside.awaited]
    exact hdelivering.ready message hmem

theorem handler (hdelivering : Delivering connection)
    (hstep : connection.handlerGoesOn = some next) : Delivering next := by
  obtain ⟨pending, htalk, hkept⟩ := hdelivering.talk
  simp only [handlerGoesOn] at hstep
  split at hstep
  · rename_i hhandler
    split at hstep
    · cases hstep
    · rename_i count hsem
      obtain rfl := Option.some.inj hstep
      exact ⟨⟨pending, htalk.startsReceiving hhandler hsem, hkept⟩, hdelivering.ready,
        hdelivering.own, hdelivering.running⟩
  · rename_i hhandler
    split at hstep
    · cases hstep
    · rename_i hincoming
      obtain rfl := Option.some.inj hstep
      exact ⟨⟨pending, htalk.receivesQuery hhandler hincoming, hkept⟩, hdelivering.ready,
        hdelivering.own, hdelivering.running⟩
    · rename_i hincoming
      obtain rfl := Option.some.inj hstep
      exact ⟨⟨pending, htalk.receivesAnswer hhandler hincoming, hkept⟩, hdelivering.ready,
        hdelivering.own, hdelivering.running⟩
  · rename_i hhandler
    obtain rfl := Option.some.inj hstep
    refine ⟨⟨pending, ?_, hkept⟩, hdelivering.ready, hdelivering.own, hdelivering.running⟩
    have hrequests : requestsOf (connection.sistema.toPlanificador ++ [(.keyStatus, 0)]) =
        connection.view.requests := by
      rw [requestsOf, List.filter_append]
      exact List.append_nil _
    have hview := congrArg (fun requests => { connection.view with
      requests := requests
      protocolRecvSem := connection.protocolRecvSem + 1
      handler := .waiting }) hrequests
    exact (htalk.answersQuery hhandler).of_eq hview

theorem keyStatus (hdelivering : Delivering connection)
    (hstep : connection.consoleKeyStatus key = some next) : Delivering next := by
  obtain ⟨pending, htalk, hkept⟩ := hdelivering.talk
  obtain ⟨entered, hwait, rfl⟩ := Option.map_eq_some_iff.mp hstep
  have hmutex : connection.view.mutex ≠ 0 := by
    intro hzero
    simp only [semWait, show connection.sistema.planificador.mutexCoordinador = 0 from hzero]
      at hwait
    cases hwait
  exact ⟨⟨pending, htalk.query hmutex, hkept⟩, hdelivering.ready, hdelivering.own,
    hdelivering.running⟩

theorem send (hdelivering : Delivering connection)
    (halone : connection.asksAlone (.send who) = true) (hstep : connection.send who = some next) :
    Delivering next := by
  obtain ⟨pending, htalk, hkept⟩ := hdelivering.talk
  obtain ⟨⟨message, sender⟩, hfind, hrest⟩ := Option.bind_eq_some_iff.mp hstep
  have hsender := List.find?_some hfind
  obtain rfl : sender = who := of_decide_eq_true hsender
  have hmem := List.mem_of_find?_eq_some hfind
  obtain ⟨phase, hphase, hasks⟩ := hdelivering.ready _ hmem
  obtain rfl := Option.some.inj hrest
  have hunsent : connection.view.unsent sender = true :=
    List.any_eq_true.mpr ⟨_, hmem, decide_eq_true rfl⟩
  have hexchange : phase.halfway = true ∨ ∀ other, connection.view.inExchange other = false := by
    rcases Bool.or_eq_true_iff.mp halone with hsecond | hnobody
    · rw [show awaitedIn connection.sistema.esis sender = some phase from hphase] at hsecond
      exact .inl hsecond
    · refine .inr fun other => ?_
      rcases Nat.lt_or_ge other connection.sistema.esis.length with hlt | hge
      · have hother := List.all_eq_true.mp hnobody other (List.mem_range.mpr hlt)
        simpa using hother
      · exact inExchange_of_length_le hge
  have hrequests : requestsOf (connection.sistema.toPlanificador ++ [(message, sender)]) =
      connection.view.requests ++ [(message, sender)] := by
    have hanswered : message ≠ .keyStatus := by
      rintro rfl
      cases phase <;> cases hasks
    simp [requestsOf, view, hanswered]
  have hsent : ∀ other, (connection.unsent.filter fun message => message.2 ≠ sender).any
      (fun message => message.2 = other) =
        Function.update connection.view.unsent sender false other := by
    intro other
    rw [List.any_filter]
    by_cases heq : other = sender
    · subst heq
      rw [Function.update_self, List.any_eq_false]
      simp
    · rw [Function.update_of_ne heq]
      refine List.any_congr rfl fun message => ?_
      by_cases hother : message.2 = other <;> simp [hother, heq]
  refine ⟨⟨pending, ?_, hkept⟩, fun other hother => ?_, hdelivering.own, hdelivering.running⟩
  · have hview := congrArg₂ (fun requests unsent => { connection.view with
      requests := requests
      unsent := unsent }) hrequests (funext hsent)
    exact (htalk.sends hphase hasks hunsent hexchange).of_eq hview
  · exact hdelivering.ready other (List.mem_filter.mp hother).1

theorem coordinatorMessage (hdelivering : Delivering connection)
    (hstep : connection.coordinatorMessage = some next) : Delivering next := by
  obtain ⟨pending, htalk, hkept⟩ := hdelivering.talk
  obtain ⟨⟨message, sender⟩, hhead, hrest⟩ := Option.bind_eq_some_iff.mp hstep
  obtain ⟨sistema, hmessage, hrest⟩ := Option.bind_eq_some_iff.mp hrest
  obtain ⟨_, _, rest, planificador, answer, hmessages, hbranch, rfl⟩ :=
    of_coordinatorMessage hmessage
  replace hmessages : connection.sistema.toPlanificador = _ := hmessages
  rw [hmessages] at hhead
  cases hhead
  obtain rfl := Option.some.inj hrest
  by_cases hquery : message = .keyStatus
  · subst hquery
    obtain ⟨rfl, rfl⟩ := coordinatorBranch_keyStatus hbranch
    refine ⟨⟨pending, ?_, ?_⟩, hdelivering.ready, hdelivering.own, hdelivering.running⟩
    · have hrequests : connection.view.requests = requestsOf rest := by
        simp [view, requestsOf, hmessages]
      have hview := congrArg (fun requests => { connection.view with requests := requests })
        hrequests.symm
      simp only [Option.toList, List.map_nil, List.append_nil]
      exact htalk.of_eq hview
    · simp only [Option.toList, List.map_nil, List.append_nil]
      exact hkept
  · have hrequests : connection.view.requests = (message, sender) :: requestsOf rest := by
      simp [view, requestsOf, hmessages, hquery]
    obtain ⟨phase, hnothing, rfl, hasks, hmutex, htold⟩ := htalk.answers hrequests
    obtain ⟨code, rfl, hfits, hleaves⟩ := answer_coordinatorBranch hasks hmutex hbranch
    refine ⟨⟨[⟨code, ownersOf connection.sistema.esis planificador.gLockedKeys, sender⟩], ?_, ?_⟩,
      hdelivering.ready, hdelivering.own, hdelivering.running⟩
    · have hview := congrArg (fun requests => { connection.view with
        requests := requests
        mutex := planificador.mutexCoordinador
        incoming := connection.incoming ++ [FromScheduler.answer
          ⟨code, ownersOf connection.sistema.esis planificador.gLockedKeys, sender⟩] }) hnothing
      exact (htold _ _ rfl hfits hleaves).of_eq hview
    · rw [List.map_append, hkept, List.map_nil, List.append_nil]
      rfl

/-! ## Threads -/

/-- A thread has gone on. -/
theorem view_goOn {sistema : SistemaState config} {answers : List (CoordinatorAnswer × Owners)}
    {phase : Phase} (hsent : connection.isUnsent who = false)
    (hgoes : ThreadGoes (connection.seen answers) sistema who phase) :
    (connection.goOn sistema).view =
      connection.view.goOn who (if phase.awaits then some phase else none) := by
  obtain ⟨hplanificador, ⟨esi, hget, hesis⟩, hmessages⟩ := hgoes
  have hphases : awaitedIn sistema.esis = Function.update (awaitedIn connection.sistema.esis) who
      (if phase.awaits then some phase else none) := by
    rw [hesis]
    exact funext (awaitedIn_set hget { esi with phase := phase })
  have hunsent : (connection.goOn sistema).isUnsent = Function.update connection.isUnsent who
      (if phase.awaits then some phase else none).isSome := by
    funext other
    show (connection.unsent ++ sistema.toPlanificador).any (fun message => message.2 = other) = _
    rw [List.any_append]
    obtain ⟨hnone, hidle⟩ | ⟨message, hmessage, hawaits, -⟩ := hmessages
    · rw [hnone, hidle]
      by_cases heq : other = who
      · subst heq
        rw [Function.update_self]
        exact (Bool.or_false _).trans hsent
      · rw [Function.update_of_ne heq]
        exact Bool.or_false _
    · rw [hmessage, hawaits]
      by_cases heq : other = who
      · subst heq
        simp
      · rw [Function.update_of_ne heq]
        simp [isUnsent, Ne.symm heq]
  have hmutex : sistema.planificador.mutexCoordinador = connection.view.mutex :=
    congrArg PlanificadorState.mutexCoordinador hplanificador
  simp only [view, ConnectionView.goOn] at hmutex ⊢
  rw [hunsent]
  simp only [goOn, hphases, hmutex]

/-- What it is about to send belongs to its phase. -/
theorem ready_goOn (hdelivering : Delivering connection) {sistema : SistemaState config}
    {answers : List (CoordinatorAnswer × Owners)} {phase : Phase}
    (hsent : connection.isUnsent who = false)
    (hgoes : ThreadGoes (connection.seen answers) sistema who phase) :
    ∀ message ∈ (connection.goOn sistema).unsent, ∃ phase,
      awaitedIn sistema.esis message.2 = some phase ∧ phase.asks message.1 = true := by
  obtain ⟨-, ⟨esi, hget, hesis⟩, hmessages⟩ := hgoes
  intro message hmem
  rw [hesis, awaitedIn_set hget]
  rcases List.mem_append.mp hmem with hbefore | hadded
  · have hother : message.2 ≠ who := by
      rintro rfl
      have hfree := List.any_eq_false.mp hsent message hbefore
      simp at hfree
    rw [Function.update_of_ne hother]
    exact hdelivering.ready message hbefore
  · obtain ⟨hnone, -⟩ | ⟨asked, hasked, hawaits, hasks⟩ := hmessages
    · rw [hnone] at hadded
      cases hadded
    · rw [hasked] at hadded
      obtain rfl := List.mem_singleton.mp hadded
      refine ⟨phase, ?_, hasks⟩
      rw [Function.update_self]
      exact if_pos hawaits

theorem any_halfway (phase : Phase) :
    (if phase.awaits then some phase else none).any Phase.halfway = phase.halfway := by
  cases phase <;> rfl

/-- A thread takes an answer that fits. -/
theorem take_eq (connection : SchedulerConnection config) {esi : Esi} {answer : SchedulerAnswer}
    (succeeds : Bool)
    (hget : connection.sistema.esis[who]? = some esi)
    (hfits : esi.phase.fits answer.code = true) :
    ∃ sistema phase, connection.take who esi succeeds (.answer answer) =
        SchedulerConnection.post
          (SchedulerConnection.goOn
            { connection with taken := connection.taken ++ [(who, .answer answer)] } sistema)
          esi.phase answer.code ∧
      ThreadGoes (connection.seen [(answer.code, answer.owners)]) sistema who phase ∧
      (phase.halfway = true ↔ answer.code = .keyIsBlocked) := by
  have hseen : (connection.seen [(answer.code, answer.owners)]).esis[who]? = some esi := hget
  obtain ⟨sistema, phase, hrecv, hgoes, hhalfway⟩ :=
    threadGoes_recvAnswer succeeds hseen rfl rfl hfits
  refine ⟨sistema, phase, ?_, hgoes, hhalfway⟩
  simp only [take, hrecv]

theorem post_of_ne {phase : Phase} {answer : CoordinatorAnswer} (hlast : answer ≠ .keyIsBlocked) :
    connection.post phase answer =
      { connection with protocolRecvSem := connection.protocolRecvSem + 1 } := by
  rw [post]
  intro operation hphase hblocked
  exact absurd hblocked hlast

theorem post_of_blocked {phase : Phase} {answer : CoordinatorAnswer}
    (hblocked : answer = .keyIsBlocked) (hfits : phase.fits answer = true) :
    connection.post phase answer = connection := by
  subst hblocked
  cases phase <;> first | rfl | cases hfits

/-- One more thread has taken its own answer. -/
theorem own_took (hdelivering : Delivering connection) {answer : SchedulerAnswer}
    (hown : answer.requester = who) :
    ∀ took ∈ connection.taken ++ [(who, FromScheduler.answer answer)],
      took.2.requester = some took.1 := by
  intro took hmem
  rcases List.mem_append.mp hmem with hbefore | hlast
  · exact hdelivering.own took hbefore
  · rw [List.mem_singleton.mp hlast]
    exact congrArg some hown

/-- The only answer that was on the way is taken. -/
theorem once_took (who : ℕ) {answer : SchedulerAnswer}
    (hkept : connection.answered.map FromScheduler.answer =
      connection.taken.map Prod.snd ++ [answer].map FromScheduler.answer) :
    connection.answered.map FromScheduler.answer =
      (connection.taken ++ [(who, FromScheduler.answer answer)]).map Prod.snd ++
        ([] : List SchedulerAnswer).map FromScheduler.answer := by
  rw [hkept, List.map_append, List.map_nil, List.append_nil]
  rfl

/-- The thread takes its own answer from `pending_protocol`. -/
theorem takePending (hdelivering : Delivering connection) {esi : Esi} {answer : SchedulerAnswer}
    {count : ℕ} (succeeds : Bool) (hget : connection.sistema.esis[who]? = some esi)
    (hunsent : connection.isUnsent who = false) (hawaits : esi.phase.awaits = true)
    (hsem : connection.pendingProtocolSem = count + 1)
    (hslot : connection.pendingProtocol = some answer) :
    Delivering
      (SchedulerConnection.take { connection with pendingProtocolSem := count } who esi succeeds
        (.answer answer)) := by
  obtain ⟨pending, htalk, hkept⟩ := hdelivering.talk
  have hphase : connection.view.phases who = some esi.phase :=
    (awaitedIn_eq hget).trans (if_pos hawaits)
  obtain ⟨rfl, hown, hfits, hover, hagain⟩ :=
    htalk.takesPending hphase hunsent hsem hslot
  obtain ⟨sistema, phase, htake, hgoes, hhalfway⟩ :=
    take_eq { connection with pendingProtocolSem := count } succeeds hget hfits
  rw [htake]
  have hview := view_goOn hunsent hgoes
  have hready := hdelivering.ready_goOn hunsent hgoes
  have howner := hdelivering.own_took hown
  have honce := once_took who hkept
  by_cases hblocked : answer.code = .keyIsBlocked
  · rw [post_of_blocked hblocked hfits]
    have hsecond := hhalfway.mpr hblocked
    have hasked : (if phase.awaits then some phase else none) = some phase :=
      if_pos (Phase.awaits_of_halfway hsecond)
    rw [hasked] at hview
    have hafter := congrArg (fun view => { view with pendingProtocolSem := count }) hview
    exact ⟨⟨[], (hagain phase hblocked hsecond).of_eq hafter, honce⟩, hready, howner,
      hdelivering.running⟩
  · rw [post_of_ne hblocked]
    have hlast : phase.halfway = false :=
      Bool.eq_false_iff.mpr fun hsecond => hblocked (hhalfway.mp hsecond)
    have hafter := congrArg (fun view => { view with
      pendingProtocolSem := count
      protocolRecvSem := connection.protocolRecvSem + 1 }) hview
    have htold := hover _ hblocked ((any_halfway phase).trans hlast)
    exact ⟨⟨[], htold.of_eq hafter, honce⟩, hready, howner, hdelivering.running⟩

/-- The thread receives its own second answer. -/
theorem takeSecond (hdelivering : Delivering connection) {esi : Esi} {item : FromScheduler}
    {rest : List FromScheduler} (succeeds : Bool)
    (hget : connection.sistema.esis[who]? = some esi) (hunsent : connection.isUnsent who = false)
    (hsecond : esi.phase.halfway = true) (hincoming : connection.incoming = item :: rest) :
    Delivering
      (SchedulerConnection.take { connection with incoming := rest } who esi succeeds item) := by
  obtain ⟨pending, htalk, hkept⟩ := hdelivering.talk
  have hawaits := Phase.awaits_of_halfway hsecond
  have hphase : connection.view.phases who = some esi.phase :=
    (awaitedIn_eq hget).trans (if_pos hawaits)
  obtain ⟨answer, rfl, rfl, hown, hfits, hover⟩ :=
    htalk.takesSecond hphase hsecond hincoming
  obtain ⟨sistema, phase, htake, hgoes, hhalfway⟩ :=
    take_eq { connection with incoming := rest } succeeds hget hfits
  have hlast := Phase.ne_keyIsBlocked_of_halfway hsecond hfits
  rw [htake, post_of_ne hlast]
  have hview := view_goOn hunsent hgoes
  have hready := hdelivering.ready_goOn hunsent hgoes
  have hended : phase.halfway = false :=
    Bool.eq_false_iff.mpr fun hagain => hlast (hhalfway.mp hagain)
  have hafter := congrArg (fun view => { view with
    incoming := rest
    protocolRecvSem := connection.protocolRecvSem + 1 }) hview
  have htold := hover _ ((any_halfway phase).trans hended)
  exact ⟨⟨[], htold.of_eq hafter, once_took who hkept⟩, hready,
    hdelivering.own_took hown, hdelivering.running⟩

/-- A thread goes on that needs no answer. -/
theorem goOn (hdelivering : Delivering connection) {sistema : SistemaState config} {phase : Phase}
    {answers : List (CoordinatorAnswer × Owners)} (hunsent : connection.isUnsent who = false)
    (hidle : awaitedIn connection.sistema.esis who = none)
    (hgoes : ThreadGoes (connection.seen answers) sistema who phase)
    (hfirst : phase.halfway = false) : Delivering (connection.goOn sistema) := by
  obtain ⟨pending, htalk, hkept⟩ := hdelivering.talk
  have hview := view_goOn hunsent hgoes
  have hready := hdelivering.ready_goOn hunsent hgoes
  have htold := htalk.goesOn hidle ((any_halfway phase).trans hfirst)
  exact ⟨⟨pending, htold.of_eq hview, hkept⟩, hready, hdelivering.own, hdelivering.running⟩

theorem thread (hdelivering : Delivering connection) {succeeds : Bool}
    (hstep : connection.thread who succeeds = some next) : Delivering next := by
  obtain ⟨esi, hget, hrest⟩ := Option.bind_eq_some_iff.mp hstep
  split at hrest
  · cases hrest
  rename_i hsent
  have hunsent : connection.isUnsent who = false := Bool.eq_false_iff.mpr hsent
  have hgoes : ((∃ operation, esi.phase = .sent operation) ∨
      ∃ operation, esi.phase = .requested operation) →
      ((connection.seen []).thread who succeeds).map connection.goOn = some next →
      Delivering next := by
    intro hphase hmap
    obtain ⟨sistema, hthread, rfl⟩ := Option.map_eq_some_iff.mp hmap
    have hseen : (connection.seen []).esis[who]? = some esi := hget
    obtain ⟨phase, hgoes, hfirst⟩ := threadGoes_thread hseen rfl hphase hthread
    refine hdelivering.goOn hunsent ?_ hgoes hfirst
    rw [awaitedIn_eq hget, Esi.awaited]
    obtain ⟨operation, hphase⟩ | ⟨operation, hphase⟩ := hphase <;> rw [hphase] <;> rfl
  cases hphase : esi.phase with
  | sent operation =>
      rw [hphase] at hrest
      exact hgoes (.inl ⟨operation, hphase⟩) hrest
  | requested operation =>
      rw [hphase] at hrest
      exact hgoes (.inr ⟨operation, hphase⟩) hrest
  | recvKeyState operation | blockKey operation | unblockKey operation =>
      rw [hphase] at hrest
      dsimp only at hrest
      split at hrest
      · rename_i hsem hslot
        obtain rfl := Option.some.inj hrest
        exact hdelivering.takePending succeeds hget hunsent (by rw [hphase]; rfl) hsem hslot
      · cases hrest
  | recvBlockedByExecutingEsi operation =>
      rw [hphase] at hrest
      dsimp only at hrest
      split at hrest
      · rename_i hincoming
        obtain rfl := Option.some.inj hrest
        exact hdelivering.takeSecond succeeds hget hunsent (by rw [hphase]; rfl) hincoming
      · cases hrest
  | waitForExecutionOrder | replied reply | sendScriptEnd =>
      rw [hphase] at hrest
      cases hrest

/-- **Every step in which an exchange is begun alone** keeps the only exchange. -/
theorem step (hdelivering : Delivering connection) {action : ConnectionAction}
    (halone : connection.asksAlone action = true)
    (hstep : connectionStep config connection action = some next) : Delivering next := by
  simp only [connectionStep] at hstep
  rw [if_neg (by simp [hdelivering.running])] at hstep
  split at hstep
  · exact hdelivering.coordinatorMessage hstep
  · exact hdelivering.thread hstep
  · rename_i action hmessage hthread
    obtain ⟨sistema, hsistema, rfl⟩ := Option.map_eq_some_iff.mp hstep
    refine hdelivering.process (aside_step ?_ ?_ hsistema)
    · rintro rfl
      exact hmessage rfl
    · rintro who succeeds rfl
      exact hthread who succeeds rfl
  · exact hdelivering.send halone hstep
  · exact hdelivering.handler hstep
  · exact hdelivering.keyStatus hstep

theorem init (config : Config) : Delivering (SchedulerConnection.init config) where
  talk := by
    refine ⟨[], .silent (fun who => ?_) rfl (fun _ hmem => by cases hmem) ?_ rfl, rfl⟩
    · exact inExchange_of_length_le (Nat.zero_le who)
    · exact ⟨rfl, .inl ⟨rfl, rfl⟩⟩
  ready _ hmem := by cases hmem
  own _ hmem := by cases hmem
  running := rfl

/-- What is meant follows. -/
theorem ownAnswers (hdelivering : Delivering connection) : OwnAnswers connection where
  own := hdelivering.own
  once := by
    obtain ⟨pending, htalk, hkept⟩ := hdelivering.talk
    rw [hkept, ← htalk.onTheWay]
    rfl
  running := hdelivering.running

end Delivering

/-- **Every answer reaches its thread** in the runs in which a thread begins an exchange with
the scheduler only while no other thread is in one. -/
theorem ownAnswers_of_runs {actions : List ConnectionAction} {finish : SchedulerConnection config}
    (hrun : (connectionStep config).Runs
      (fun connection action => connection.asksAlone action = true)
      (init config) actions finish) : OwnAnswers finish :=
  Delivering.ownAnswers
    (hrun.invariant Delivering (fun hdelivering halone hstep => hdelivering.step halone hstep)
      (.init config))

/-- An ESI gets a key, while the console asks for its state. -/
theorem ownAnswers_of_runs_get :
    ∃ finish : SchedulerConnection (smallConfig .fifo), finish.taken.length = 2 ∧
      OwnAnswers finish := by
  obtain ⟨finish, hrun, hcheck⟩ := PartialStep.exists_run_of_execute
    ((connectionStep (smallConfig .fifo)).guarded asksAlone) (init _)
    [.process (.connect 10 true [.get keyK]), .process (.endOfTurn []), .process (.esi 0),
      .process (.thread 0 true), .send 0, .keyStatus keyK, .process .coordinatorMessage, .handler,
      .handler, .handler, .handler, .handler, .process (.thread 0 true), .send 0,
      .process .coordinatorMessage, .process .coordinatorMessage, .handler, .handler,
      .process (.thread 0 true)]
    (fun connection => decide (connection.taken.length = 2)) (by decide)
  exact ⟨finish, of_decide_eq_true hcheck,
    ownAnswers_of_runs (PartialStep.runs_of_guarded hrun)⟩

/-- ESI 0 dies after its GET has been sent, and the scheduler lets ESI 1 execute: the thread
of ESI 1 takes the answer to ESI 0. -/
theorem not_ownAnswers :
    ¬ ∀ (config : Config) (finish : SchedulerConnection config) (actions : List ConnectionAction),
      (connectionStep config).FreeRuns (init config) actions finish → OwnAnswers finish := by
  intro hclaim
  obtain ⟨finish, hrun, hcheck⟩ := PartialStep.exists_run_of_execute
    (connectionStep (smallConfig .fifo)) (init _)
    [.process (.connect 10 true [.get keyK]), .process (.connect 11 true [.get keyJ]),
      .process (.endOfTurn []), .process (.esi 0), .process (.thread 0 true), .send 0,
      .process (.die 0), .process (.executingEsi .other .other [] []), .process (.endOfTurn []),
      .process (.esi 1), .process (.thread 1 true), .send 1, .process .coordinatorMessage,
      .process .coordinatorMessage, .handler, .handler, .process (.thread 1 true)]
    (fun connection => connection.taken.any fun took => decide (took.2.requester ≠ some took.1))
    (by decide)
  obtain ⟨took, hmem, hother⟩ := List.any_eq_true.mp hcheck
  exact of_decide_eq_true hother ((hclaim _ finish _ hrun).own took hmem)

end SchedulerConnection

end SockMyPort.Sistema
