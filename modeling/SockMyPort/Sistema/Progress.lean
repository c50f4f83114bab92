/-
# Every statement is answered

The scheduler's loop waits for a semaphore that it keeps between its two answers, and a
thread of the coordinator waits while another one has asked for the owner of a key. None of
them waits in vain: at most eight steps of the thread and of the scheduler lie between a
statement and its answer, and until it is answered one of them can be taken.

This holds as long as the console asks for the status of no key. What is asked of an instance
ends, well or badly, in one step here.
-/

import SockMyPort.Library.Progress
import SockMyPort.Sistema.Statements
import SockMyPort.Sistema.Delivery

namespace SockMyPort.Sistema

open SockMyPort.Commons SockMyPort.Planificador Library

variable {config : Config} {sistema next : SistemaState config} {who : ℕ} {esi : Esi}

/-! ## What a thread does -/

/-- What a step of the thread of an ESI does: the phase that it goes to, and what it sends. -/
inductive ThreadMoves (sistema next : SistemaState config) (esi : Esi) :
    Phase → List CoordinatorMessage → Prop
  | asks {operation : EsiOperation} (hphase : esi.phase = .sent operation)
      (hanswers : next.toCoordinador = sistema.toCoordinador) :
      ThreadMoves sistema next esi (askKeyState operation).1 (askKeyState operation).2
  | learns {operation : EsiOperation} {answer : CoordinatorAnswer} {owners : Owners}
      {outcome : Phase × List CoordinatorMessage} (hphase : esi.phase = .recvKeyState operation)
      (hanswers : sistema.toCoordinador = (answer, owners) :: next.toCoordinador)
      (houtcome : recvKeyState operation answer = some outcome) :
      ThreadMoves sistema next esi outcome.1 outcome.2
  | learnsOwner {operation : EsiOperation} {answer : CoordinatorAnswer} {owners : Owners}
      {dispatched : Bool} {phase : Phase}
      (hphase : esi.phase = .recvBlockedByExecutingEsi operation)
      (hanswers : sistema.toCoordinador = (answer, owners) :: next.toCoordinador)
      (houtcome : recvBlockedByExecutingEsi operation dispatched answer = some phase) :
      ThreadMoves sistema next esi phase []
  | handles {operation : EsiOperation} {succeeds : Bool} {outcome : Phase × List CoordinatorMessage}
      (hphase : esi.phase = .requested operation)
      (hanswers : next.toCoordinador = sistema.toCoordinador)
      (houtcome : handleRequest operation succeeds = some outcome) :
      ThreadMoves sistema next esi outcome.1 outcome.2
  | ends {operation : EsiOperation} {answer : CoordinatorAnswer} {owners : Owners}
      (hphase : esi.phase = .blockKey operation ∨ esi.phase = .unblockKey operation)
      (hanswers : sistema.toCoordinador = (answer, owners) :: next.toCoordinador) :
      ThreadMoves sistema next esi (.replied .everythingOk) []

theorem of_thread {succeeds : Bool} (hget : sistema.esis[who]? = some esi)
    (hthread : sistema.thread who succeeds = some next) :
    ∃ phase messages, ThreadMoves sistema next esi phase messages ∧
      next.esis = sistema.esis.set who { esi with phase := phase } ∧
      next.toPlanificador =
        sistema.toPlanificador ++ messages.map fun message => (message, who) := by
  simp only [SistemaState.thread, hget, Option.bind_eq_bind, Option.bind_some] at hthread
  split at hthread
  · rename_i operation hphase
    obtain rfl := Option.some.inj hthread
    exact ⟨_, _, .asks hphase rfl, rfl, rfl⟩
  · rename_i operation hphase
    obtain ⟨outcome, houtcome, rfl⟩ := Option.map_eq_some_iff.mp hthread
    exact ⟨_, _, .handles hphase rfl houtcome, rfl, rfl⟩
  · obtain ⟨-, hrecv⟩ := Option.ite_none_right_eq_some.mp hthread
    simp only [SistemaState.recvAnswer] at hrecv
    split at hrecv
    · cases hrecv
    · rename_i answer owners rest hanswers
      split at hrecv
      · rename_i operation hphase
        obtain ⟨outcome, houtcome, rfl⟩ := Option.map_eq_some_iff.mp hrecv
        exact ⟨_, _, .learns hphase hanswers houtcome, rfl, rfl⟩
      · rename_i operation hphase
        obtain ⟨phase, houtcome, rfl⟩ := Option.map_eq_some_iff.mp hrecv
        exact ⟨_, _, .learnsOwner hphase hanswers houtcome, rfl, rfl⟩
      · rename_i operation hphase
        obtain rfl := Option.some.inj hrecv
        exact ⟨_, _, .ends (.inl hphase) hanswers, rfl, rfl⟩
      · rename_i operation hphase
        obtain rfl := Option.some.inj hrecv
        exact ⟨_, _, .ends (.inr hphase) hanswers, rfl, rfl⟩
      · cases hrecv

/-! ## How far the answer is -/

/-- The steps that are left when the connection is silent, or an answer is on it. -/
def Phase.remaining : Phase → ℕ
  | .sent _ => 8
  | .recvKeyState _ => 6
  | .recvBlockedByExecutingEsi _ => 4
  | .requested _ => 3
  | .blockKey _ | .unblockKey _ => 1
  | .replied _ | .sendScriptEnd | .waitForExecutionOrder => 0

/-- Where the statement of an ESI is. -/
def SistemaState.phaseOf (sistema : SistemaState config) (who : ℕ) : Option Phase :=
  sistema.esis[who]?.map Esi.phase

/-- The steps of the thread and of the scheduler that are left until a statement is
answered, at most. -/
def SistemaState.remaining (sistema : SistemaState config) (who : ℕ) : ℕ :=
  (sistema.phaseOf who).elim 0 Phase.remaining + sistema.toPlanificador.length

theorem remaining_eq (hget : sistema.esis[who]? = some esi) :
    sistema.remaining who = esi.phase.remaining + sistema.toPlanificador.length := by
  rw [SistemaState.remaining, SistemaState.phaseOf, hget]
  rfl

theorem map_phase_hear (connectedFds orders : List ℤ) (found : Option Esi) :
    (found.map (Esi.hear connectedFds orders)).map Esi.phase = found.map Esi.phase := by
  rw [Option.map_map]
  exact congrArg (Option.map · found) (funext (Esi.phase_hear connectedFds orders))

theorem map_phase_set {esis : List Esi} {other : ℕ} {changed : Esi}
    (hget : esis[other]? = some esi) (hphase : changed.phase = esi.phase) (who : ℕ) :
    ((esis.set other changed)[who]?).map Esi.phase = esis[who]?.map Esi.phase := by
  by_cases heq : other = who
  · subst heq
    rw [List.getElem?_set_self (List.getElem?_eq_some_iff.mp hget).1, hget, Option.map_some,
      Option.map_some, hphase]
  · rw [List.getElem?_set_ne heq]

/-- Where a statement is changes only when its ESI or its thread goes on. -/
theorem phaseOf_of_step {action : Action} (hlt : who < sistema.esis.length)
    (hesi : action ≠ .esi who) (hthread : ∀ succeeds, action ≠ .thread who succeeds)
    (hstep : step config sistema action = some next) : next.phaseOf who = sistema.phaseOf who := by
  simp only [SistemaState.phaseOf]
  cases action with
  | connect fd handshake lines =>
      obtain ⟨planificador, -, hrest⟩ := Option.bind_eq_some_iff.mp hstep
      obtain rfl := Option.some.inj hrest
      simp only [SistemaState.afterPlanificador]
      rw [List.getElem?_append_left (by simpa using hlt), List.getElem?_map, map_phase_hear]
  | coordinatorMessage =>
      obtain ⟨_, _, _, _, _, _, _, rfl⟩ := of_coordinatorMessage hstep
      rfl
  | executingEsi garbage scriptGarbage meanwhile unreachable =>
      obtain ⟨other, -, hrest⟩ := Option.bind_eq_some_iff.mp hstep
      obtain ⟨changed, hget, hrest⟩ := Option.bind_eq_some_iff.mp hrest
      obtain ⟨⟨result, scriptEnd, read⟩, hrecv, hrest⟩ := Option.bind_eq_some_iff.mp hrest
      obtain ⟨planificador, -, hrest⟩ := Option.bind_eq_some_iff.mp hrest
      obtain rfl := Option.some.inj hrest
      simp only [SistemaState.afterPlanificador]
      rw [List.getElem?_map, map_phase_hear, map_phase_set hget (Esi.phase_recvResult hrecv)]
  | endOfTurn unreachable =>
      obtain ⟨planificador, -, rfl⟩ := Option.map_eq_some_iff.mp hstep
      simp only [SistemaState.afterPlanificador, List.getElem?_map, map_phase_hear]
  | console command =>
      obtain rfl := Option.some.inj hstep
      simp only [SistemaState.afterPlanificador, List.getElem?_map, map_phase_hear]
  | esi other =>
      obtain ⟨changed, -, hrest⟩ := Option.bind_eq_some_iff.mp hstep
      obtain ⟨after, -, hrest⟩ := Option.bind_eq_some_iff.mp hrest
      obtain rfl := Option.some.inj hrest
      have hne : other ≠ who := fun heq => hesi (heq ▸ rfl)
      rw [List.getElem?_set_ne hne]
  | die other =>
      obtain ⟨changed, hget, hrest⟩ := Option.bind_eq_some_iff.mp hstep
      obtain rfl := Option.some.inj hrest
      have hphase : { changed with alive := false }.phase = changed.phase := rfl
      exact map_phase_set hget hphase who
  | thread other succeeds =>
      obtain ⟨changed, hget, -⟩ := Option.bind_eq_some_iff.mp hstep
      obtain ⟨phase, messages, -, hesis, -⟩ := of_thread hget hstep
      have hne : other ≠ who := fun heq => hthread succeeds (heq ▸ rfl)
      rw [hesis, List.getElem?_set_ne hne]

/-- A thread comes nearer to the answer. -/
theorem ThreadMoves.remaining {phase : Phase} {messages : List CoordinatorMessage}
    (hmoves : ThreadMoves sistema next esi phase messages) :
    phase.remaining + messages.length < esi.phase.remaining := by
  cases hmoves with
  | asks hphase hanswers =>
      rw [hphase, askKeyState]
      split <;> simp [Phase.remaining]
  | @learns operation answer owners outcome hphase hanswers houtcome =>
      rw [hphase]
      cases answer with
      | keyIsNotBlocked =>
          obtain rfl := Option.some.inj houtcome
          cases operation <;> simp [Phase.remaining, keyUnblocked]
      | keyIsBlocked =>
          obtain rfl := Option.some.inj houtcome
          simp [Phase.remaining]
      | keyBlockedByExecutingEsi | keyNotBlockedByExecutingEsi | keyBlockedSuccesfully
      | keyUnlockedSuccesfully => cases houtcome
  | @learnsOwner operation answer owners dispatched phase hphase hanswers houtcome =>
      rw [hphase]
      cases answer with
      | keyBlockedByExecutingEsi =>
          obtain rfl := Option.some.inj houtcome
          cases operation <;> cases dispatched <;> simp [Phase.remaining, keyBlockedByExecutingEsi]
      | keyNotBlockedByExecutingEsi =>
          obtain rfl := Option.some.inj houtcome
          cases operation <;> simp [Phase.remaining, keyBlocked]
      | keyIsBlocked | keyIsNotBlocked | keyBlockedSuccesfully | keyUnlockedSuccesfully =>
          cases houtcome
  | @handles operation succeeds outcome hphase hanswers houtcome =>
      rw [hphase]
      cases operation with
      | get key => cases houtcome
      | set key value =>
          obtain rfl := Option.some.inj houtcome
          simp [Phase.remaining]
      | store key =>
          obtain rfl := Option.some.inj houtcome
          cases succeeds <;> simp [Phase.remaining]
  | ends hphase hanswers =>
      obtain hphase | hphase := hphase <;> rw [hphase] <;> simp [Phase.remaining]

/-! ## The semaphore -/

/-- The scheduler has answered that a key is blocked, and has not handled the second question. -/
def SistemaState.betweenAnswers (sistema : SistemaState config) : Bool :=
  (sistema.toCoordinador.any fun answer => answer.1 = .keyIsBlocked) ||
    sistema.toPlanificador.any fun message => message.1 = .isKeyBlockedByExecutingEsi

/-- The semaphore is taken between the answers, and free otherwise. -/
def SistemaState.SemaphoreFits (sistema : SistemaState config) : Prop :=
  sistema.planificador.mutexCoordinador = if sistema.betweenAnswers then 0 else 1

/-- The semaphore is taken as before when neither it nor the connection has changed. -/
theorem semaphoreFits_of_eq (hfits : sistema.SemaphoreFits)
    (hmutex : KeepsMutex sistema.planificador next.planificador)
    (hmessages : next.toPlanificador = sistema.toPlanificador)
    (hanswers : next.toCoordinador = sistema.toCoordinador) : next.SemaphoreFits := by
  rw [SistemaState.SemaphoreFits, SistemaState.betweenAnswers, hmessages, hanswers]
  exact Eq.trans hmutex hfits

/-- Only the thread that waits for its first answer is told that a key is blocked. -/
theorem Exchange.phase_of_keyIsBlocked {locked : List CString} {inquired : Option CString}
    {inquirer : Option ℕ} {messages : List (CoordinatorMessage × ℕ)}
    {answers : List (CoordinatorAnswer × Owners)} {lines : List EsiOperation} {phase : Phase}
    {orders : ℕ} {results : List ExecutionResult} {owners : Owners}
    (hexchange : Exchange locked inquired inquirer messages answers who lines phase orders results)
    (hmem : (.keyIsBlocked, owners) ∈ answers) : ∃ operation, phase = .recvKeyState operation := by
  cases hexchange with
  | blocked hphase => exact ⟨_, hphase⟩
  | unblocked _ _ _ _ _ _ _ hanswered | owned _ _ _ _ _ _ hanswered
  | notOwned _ _ _ _ _ _ hanswered | blockedSuccesfully _ _ _ _ _ hanswered
  | unlockedSuccesfully _ _ _ _ hanswered =>
      rw [hanswered.2] at hmem
      cases List.mem_singleton.mp hmem
  | inquiring _ _ _ _ hnone | inquiringOwner _ _ _ _ _ _ hnone | blocking _ _ _ _ _ _ _ hnone
  | unblocking _ _ _ _ hnone | ordered _ _ _ hnone | sent _ _ _ _ hnone | requested _ _ _ _ hnone
  | everythingOk _ _ _ _ hnone | youAreBlocked _ _ _ _ _ _ hnone | illegal _ _ _ hnone
  | scriptEnd _ _ _ hnone | succeeded _ _ _ hnone | reportedBlocked _ _ _ _ _ _ hnone =>
      rw [hnone.2] at hmem
      cases hmem

/-- A message of the coordinator is alone on the connection. -/
theorem Engaged.asking (hengaged : Engaged sistema who esi)
    {message : CoordinatorMessage × ℕ} {rest : List (CoordinatorMessage × ℕ)}
    (hmessages : sistema.toPlanificador = message :: rest) :
    rest = [] ∧ sistema.toCoordinador = [] := by
  obtain hexchange | ⟨-, hnone, -⟩ := hengaged
  swap
  · rw [hnone] at hmessages
    cases hmessages
  cases hexchange with
  | inquiring _ _ _ _ hasking | inquiringOwner _ _ _ _ _ _ hasking
  | blocking _ _ _ _ _ _ _ hasking | unblocking _ _ _ _ hasking =>
      exact ⟨(List.cons.inj (hmessages.symm.trans hasking.1)).2, hasking.2⟩
  | unblocked _ _ _ _ _ _ _ hnone | blocked _ _ _ _ _ _ hnone | owned _ _ _ _ _ _ hnone
  | notOwned _ _ _ _ _ _ hnone | blockedSuccesfully _ _ _ _ _ hnone
  | unlockedSuccesfully _ _ _ _ hnone | ordered _ _ _ hnone | sent _ _ _ _ hnone
  | requested _ _ _ _ hnone | everythingOk _ _ _ _ hnone | youAreBlocked _ _ _ _ _ _ hnone
  | illegal _ _ _ hnone | scriptEnd _ _ _ hnone | succeeded _ _ _ hnone
  | reportedBlocked _ _ _ _ _ _ hnone =>
      rw [hnone.1] at hmessages
      cases hmessages

/-- The connection is silent when the thread has not begun. -/
theorem Engaged.silent_of_sent (hengaged : Engaged sistema who esi) {operation : EsiOperation}
    (hsent : esi.phase = .sent operation) : sistema.toPlanificador = [] := by
  obtain hexchange | ⟨-, hnone, -⟩ := hengaged
  swap
  · exact hnone
  cases hexchange with
  | sent _ _ _ _ hsilent => exact hsilent.1
  | inquiring hphase | unblocked hphase | blocked hphase | inquiringOwner hphase | owned hphase
  | notOwned hphase | blocking hphase | blockedSuccesfully hphase | requested hphase
  | unblocking hphase | unlockedSuccesfully hphase | ordered hphase | everythingOk hphase
  | youAreBlocked hphase | illegal hphase | scriptEnd hphase | succeeded hphase
  | reportedBlocked hphase => cases hsent.symm.trans hphase

/-- A thread asks the second question when it takes the first answer. -/
theorem ThreadMoves.asks_iff {phase : Phase} {messages : List CoordinatorMessage}
    (hengaged : Engaged sistema who esi) (hmoves : ThreadMoves sistema next esi phase messages) :
    (next.toCoordinador = sistema.toCoordinador ∧ .isKeyBlockedByExecutingEsi ∉ messages) ∨
      ∃ answer owners, sistema.toCoordinador = (answer, owners) :: next.toCoordinador ∧
        (answer = .keyIsBlocked ↔ .isKeyBlockedByExecutingEsi ∈ messages) := by
  cases hmoves with
  | asks hphase hanswers =>
      refine .inl ⟨hanswers, ?_⟩
      rw [askKeyState]
      split <;> simp
  | @handles operation succeeds outcome hphase hanswers houtcome =>
      refine .inl ⟨hanswers, ?_⟩
      cases operation with
      | get key => cases houtcome
      | set key value =>
          obtain rfl := Option.some.inj houtcome
          simp
      | store key =>
          obtain rfl := Option.some.inj houtcome
          cases succeeds <;> simp
  | @learns operation answer owners outcome hphase hanswers houtcome =>
      refine .inr ⟨answer, owners, hanswers, ?_⟩
      cases answer with
      | keyIsNotBlocked =>
          obtain rfl := Option.some.inj houtcome
          cases operation <;> simp [keyUnblocked]
      | keyIsBlocked =>
          obtain rfl := Option.some.inj houtcome
          simp
      | keyBlockedByExecutingEsi | keyNotBlockedByExecutingEsi | keyBlockedSuccesfully
      | keyUnlockedSuccesfully => cases houtcome
  | @learnsOwner operation answer owners dispatched phase hphase hanswers houtcome =>
      refine .inr ⟨answer, owners, hanswers, ?_⟩
      cases answer with
      | keyIsBlocked => cases houtcome
      | keyBlockedByExecutingEsi | keyNotBlockedByExecutingEsi | keyIsNotBlocked
      | keyBlockedSuccesfully | keyUnlockedSuccesfully => simp
  | @ends operation answer owners hphase hanswers =>
      refine .inr ⟨answer, owners, hanswers, ?_⟩
      -- the answer is not looked at, but it is the one to the request
      have hother : answer ≠ .keyIsBlocked := by
        rintro rfl
        obtain hexchange | ⟨-, -, hnone⟩ := hengaged
        · obtain ⟨asked, hasked⟩ := hexchange.phase_of_keyIsBlocked (hanswers ▸ List.mem_cons_self)
          obtain hphase | hphase := hphase <;> cases hasked.symm.trans hphase
        · rw [hnone] at hanswers
          cases hanswers
      simp [hother]

theorem semaphoreFits_thread {succeeds : Bool} (hget : sistema.esis[who]? = some esi)
    (hengaged : Engaged sistema who esi) (hfits : sistema.SemaphoreFits)
    (hthread : sistema.thread who succeeds = some next) : next.SemaphoreFits := by
  obtain ⟨phase, messages, hmoves, -, hmessages⟩ := of_thread hget hthread
  have hsame : next.betweenAnswers = sistema.betweenAnswers := by
    rw [SistemaState.betweenAnswers, SistemaState.betweenAnswers, hmessages, List.any_append,
      List.any_map]
    obtain ⟨hanswers, hnot⟩ | ⟨answer, owners, hanswers, hasks⟩ := hmoves.asks_iff hengaged
    · have hquestion :
          (messages.any fun message => message = .isKeyBlockedByExecutingEsi) = false :=
        List.any_eq_false.mpr fun message hmem heq => hnot (of_decide_eq_true heq ▸ hmem)
      rw [hanswers]
      simp [Function.comp_def, hquestion]
    · have hquestion : (messages.any fun message => message = .isKeyBlockedByExecutingEsi) =
          decide (answer = .keyIsBlocked) := by
        rw [Bool.eq_iff_iff, decide_eq_true_eq, hasks]
        simp
      rw [hanswers, List.any_cons]
      simp only [Function.comp_def, hquestion]
      ac_rfl
  rw [SistemaState.SemaphoreFits, hsame, planificador_of_thread hthread]
  exact hfits

theorem semWait_of_free {state : PlanificadorState config} (hfree : state.mutexCoordinador = 1) :
    semWait state = some { state with mutexCoordinador := 0 } := by
  simp only [semWait, hfree]

/-- The scheduler takes the semaphore when it answers that a key is blocked, and gives it
back when it answers the second question. -/
theorem semaphoreFits_coordinatorMessage (hengaged : Engaged sistema who esi)
    (hfits : sistema.SemaphoreFits) (hmessage : sistema.coordinatorMessage = some next) :
    next.SemaphoreFits := by
  obtain ⟨message, sender, rest, planificador, answer, hmessages, hbranch, rfl⟩ :=
    of_coordinatorMessage hmessage
  obtain ⟨rfl, hanswers⟩ := hengaged.asking hmessages
  simp only [SistemaState.SemaphoreFits, SistemaState.betweenAnswers, hanswers, hmessages,
    List.any_nil,
    List.any_cons, Bool.or_false, Bool.false_or, List.nil_append, decide_eq_true_eq] at hfits ⊢
  cases message with
  | isThisKeyBlocked key =>
      obtain ⟨entered, hwait, hrest⟩ := Option.bind_eq_some_iff.mp hbranch
      rw [semWait_of_free (hfits.trans (if_neg (by simp)))] at hwait
      obtain rfl := Option.some.inj hwait
      dsimp only at hrest
      split at hrest
      · obtain ⟨rfl, rfl⟩ := Prod.mk.inj (Option.some.inj hrest)
        simp
      · obtain ⟨rfl, rfl⟩ := Prod.mk.inj (Option.some.inj hrest)
        simp [semPost]
  | isKeyBlockedByExecutingEsi =>
      replace hfits : sistema.planificador.mutexCoordinador = 0 := hfits.trans (if_pos (by simp))
      obtain ⟨key, -, hrest⟩ := Option.bind_eq_some_iff.mp hbranch
      obtain ⟨response, -, hrest⟩ := Option.bind_eq_some_iff.mp hrest
      split at hrest
      · obtain ⟨rfl, rfl⟩ := Prod.mk.inj (Option.some.inj hrest)
        simp [semPost, hfits]
      · obtain ⟨rfl, rfl⟩ := Prod.mk.inj (Option.some.inj hrest)
        simp [semPost, hfits]
  | blockKey =>
      obtain ⟨entered, hwait, hrest⟩ := Option.bind_eq_some_iff.mp hbranch
      rw [semWait_of_free (hfits.trans (if_neg (by simp)))] at hwait
      obtain rfl := Option.some.inj hwait
      obtain ⟨key, -, hrest⟩ := Option.bind_eq_some_iff.mp hrest
      obtain ⟨blocked, hblocked, hrest⟩ := Option.bind_eq_some_iff.mp hrest
      obtain ⟨rfl, rfl⟩ := Prod.mk.inj (Option.some.inj hrest)
      simp only [addNewKeyBlocker] at hblocked
      split at hblocked
      · obtain rfl := Option.some.inj hblocked
        simp [semPost]
      · cases hblocked
  | unlockKey key =>
      obtain ⟨entered, hwait, hrest⟩ := Option.bind_eq_some_iff.mp hbranch
      rw [semWait_of_free (hfits.trans (if_neg (by simp)))] at hwait
      obtain rfl := Option.some.inj hwait
      obtain ⟨rfl, rfl⟩ := Prod.mk.inj (Option.some.inj hrest)
      simp [semPost]
  | keyStatus =>
      obtain ⟨entered, hwait, hrest⟩ := Option.bind_eq_some_iff.mp hbranch
      rw [semWait_of_free (hfits.trans (if_neg (by simp)))] at hwait
      obtain rfl := Option.some.inj hwait
      obtain ⟨rfl, rfl⟩ := Prod.mk.inj (Option.some.inj hrest)
      simp [semPost]

/-- A step keeps the semaphore as it should be. -/
theorem semaphoreFits_step (hinv : SistemaInvariant sistema) (hfits : sistema.SemaphoreFits)
    {action : Action} (hstep : step config sistema action = some next) : next.SemaphoreFits := by
  have hmain := mainStep_of_step hstep
  cases action with
  | connect fd handshake lines =>
      obtain ⟨planificador, -, hrest⟩ := Option.bind_eq_some_iff.mp hstep
      have hmutex := keepsMutex_mainStep (fun message heq => by cases heq) hmain
      obtain rfl := Option.some.inj hrest
      exact semaphoreFits_of_eq hfits hmutex rfl rfl
  | coordinatorMessage =>
      obtain ⟨message, sender, rest, planificador, answer, hmessages, -⟩ :=
        of_coordinatorMessage hstep
      cases hinv.conversation with
      | idle _ hsilent =>
          rw [hsilent.1] at hmessages
          cases hmessages
      | engaged _ _ _ hengaged _ => exact semaphoreFits_coordinatorMessage hengaged hfits hstep
  | executingEsi garbage scriptGarbage meanwhile unreachable =>
      obtain ⟨other, hother, hrest⟩ := Option.bind_eq_some_iff.mp hstep
      obtain ⟨changed, hget, hrest⟩ := Option.bind_eq_some_iff.mp hrest
      obtain ⟨⟨result, scriptEnd, read⟩, hrecv, hrest⟩ := Option.bind_eq_some_iff.mp hrest
      obtain ⟨planificador, hexecutes, hrest⟩ := Option.bind_eq_some_iff.mp hrest
      have hmutex := keepsMutex_mainStep (fun message heq => by cases heq) hexecutes
      obtain rfl := Option.some.inj hrest
      exact semaphoreFits_of_eq hfits hmutex rfl rfl
  | endOfTurn unreachable =>
      obtain ⟨planificador, -, rfl⟩ := Option.map_eq_some_iff.mp hstep
      exact semaphoreFits_of_eq hfits (keepsMutex_mainStep (fun message heq => by cases heq) hmain)
        rfl rfl
  | console command =>
      obtain rfl := Option.some.inj hstep
      exact semaphoreFits_of_eq hfits (keepsMutex_mainStep (fun message heq => by cases heq) hmain)
        rfl rfl
  | esi other =>
      obtain ⟨changed, -, hrest⟩ := Option.bind_eq_some_iff.mp hstep
      obtain ⟨after, -, hrest⟩ := Option.bind_eq_some_iff.mp hrest
      obtain rfl := Option.some.inj hrest
      exact semaphoreFits_of_eq hfits (.refl _) rfl rfl
  | die other =>
      obtain ⟨changed, -, hrest⟩ := Option.bind_eq_some_iff.mp hstep
      obtain rfl := Option.some.inj hrest
      exact semaphoreFits_of_eq hfits (.refl _) rfl rfl
  | thread other succeeds =>
      obtain ⟨esi, hget, -, -, hengaged⟩ := hinv.engaged_of_thread hstep
      exact semaphoreFits_thread hget hengaged hfits hstep

/-! ## One step nearer -/

/-- The steps that bring an answer nearer: those of a thread, and of the scheduler when it
handles the coordinator. -/
def advances : Action → Bool
  | .thread _ _ | .coordinatorMessage => true
  | _ => false

/-- The result of the statement has not been reported. -/
def Phase.unreported : Phase → Bool
  | .sendScriptEnd | .waitForExecutionOrder => false
  | _ => true

theorem ThreadMoves.unreported {phase : Phase} {messages : List CoordinatorMessage}
    (hmoves : ThreadMoves sistema next esi phase messages) : phase.unreported = true := by
  cases hmoves with
  | asks hphase hanswers =>
      rw [askKeyState]
      split <;> rfl
  | @learns operation answer owners outcome hphase hanswers houtcome =>
      cases answer with
      | keyIsNotBlocked =>
          obtain rfl := Option.some.inj houtcome
          cases operation <;> rfl
      | keyIsBlocked =>
          obtain rfl := Option.some.inj houtcome
          rfl
      | keyBlockedByExecutingEsi | keyNotBlockedByExecutingEsi | keyBlockedSuccesfully
      | keyUnlockedSuccesfully => cases houtcome
  | @learnsOwner operation answer owners dispatched phase hphase hanswers houtcome =>
      cases answer with
      | keyBlockedByExecutingEsi =>
          obtain rfl := Option.some.inj houtcome
          cases operation <;> cases dispatched <;> rfl
      | keyNotBlockedByExecutingEsi =>
          obtain rfl := Option.some.inj houtcome
          cases operation <;> rfl
      | keyIsBlocked | keyIsNotBlocked | keyBlockedSuccesfully | keyUnlockedSuccesfully =>
          cases houtcome
  | @handles operation succeeds outcome hphase hanswers houtcome =>
      cases operation with
      | get key => cases houtcome
      | set key value =>
          obtain rfl := Option.some.inj houtcome
          rfl
      | store key =>
          obtain rfl := Option.some.inj houtcome
          cases succeeds <;> rfl
  | ends hphase hanswers => rfl

/-- Such a step does not report. -/
theorem unreported_of_step {action : Action} (hadvances : advances action = true)
    (hunreported : (sistema.phaseOf who).any Phase.unreported = true)
    (hstep : step config sistema action = some next) :
    (next.phaseOf who).any Phase.unreported = true := by
  obtain ⟨phase, hphase, -⟩ := (Option.any_eq_true _ _).mp hunreported
  obtain ⟨esi, hget, -⟩ := Option.map_eq_some_iff.mp hphase
  have hlt := (List.getElem?_eq_some_iff.mp hget).1
  cases action with
  | thread other succeeds =>
      by_cases heq : other = who
      · subst heq
        obtain ⟨phase, messages, hmoves, hesis, -⟩ := of_thread hget hstep
        rw [SistemaState.phaseOf, hesis, List.getElem?_set_self hlt]
        exact hmoves.unreported
      · rw [phaseOf_of_step hlt (by simp) (by simpa using heq) hstep]
        exact hunreported
  | coordinatorMessage =>
      rw [phaseOf_of_step hlt (by simp) (by simp) hstep]
      exact hunreported
  | connect | executingEsi | endOfTurn | console | esi | die => cases hadvances

/-- No other thread has asked the second question. -/
theorem readsAnswers_of_others
    (hget : sistema.esis[who]? = some esi)
    (hothers : ∀ (other : ℕ) (esi' : Esi), other ≠ who → sistema.esis[other]? = some esi' →
      esi'.Quiet) : sistema.readsAnswers esi.phase = true := by
  cases hphase : esi.phase with
  | recvBlockedByExecutingEsi operation => rfl
  | waitForExecutionOrder | sent | recvKeyState | blockKey | requested | unblockKey | replied
  | sendScriptEnd =>
      simp only [SistemaState.readsAnswers, Bool.not_eq_true', List.any_eq_false]
      intro other hmem
      obtain ⟨i, hi⟩ := List.mem_iff_getElem?.mp hmem
      by_cases heq : i = who
      · subst heq
        obtain rfl := Option.some.inj (hi.symm.trans hget)
        rw [hphase]
        exact Bool.false_ne_true
      · have hidle := (hothers i other heq hi).inFlight
        split
        · rename_i hasking
          rw [hasking] at hidle
          cases hidle
        · exact Bool.false_ne_true

/-- The scheduler can take a message when its branch goes through. -/
theorem coordinatorMessage_isSome {message : CoordinatorMessage} {sender : ℕ}
    {rest : List (CoordinatorMessage × ℕ)}
    (hmessages : sistema.toPlanificador = (message, sender) :: rest)
    (hbranch : (coordinatorBranch sistema.planificador message).isSome = true) :
    sistema.coordinatorMessage.isSome = true := by
  obtain ⟨outcome, houtcome⟩ := Option.isSome_iff_exists.mp hbranch
  simp only [SistemaState.coordinatorMessage, hmessages, houtcome, Option.bind_eq_bind,
    Option.bind_some,
    Option.isSome_some]

/-- **One more step is possible** while a statement is in flight. -/
theorem isSome_of_inFlight (hget : sistema.esis[who]? = some esi)
    (hexecution : sistema.planificador.gExecutionQueue = [esi.fd])
    (hengaged : Engaged sistema who esi)
    (hothers : ∀ (other : ℕ) (esi' : Esi), other ≠ who → sistema.esis[other]? = some esi' →
      esi'.Quiet) (hfits : sistema.SemaphoreFits)
    (hrequest : ∀ {operation : EsiOperation}, esi.phase = .requested operation →
      (handleRequest operation true).isSome = true)
    (hinFlight : esi.phase.inFlight = true) :
    (sistema.thread who true).isSome = true ∨ sistema.coordinatorMessage.isSome = true := by
  have hreads := readsAnswers_of_others hget hothers
  obtain hexchange | ⟨⟨-, hidle, -⟩, -⟩ := hengaged
  swap
  · rw [hidle] at hinFlight
    cases hinFlight
  cases hexchange with
  | sent hphase =>
      left
      simp [SistemaState.thread, hget, hphase]
  | requested hphase =>
      left
      simpa [SistemaState.thread, hget, hphase] using hrequest hphase
  | unblocked hphase _ _ _ _ _ _ hanswered | blocked hphase _ _ _ _ _ hanswered
  | owned hphase _ _ _ _ _ hanswered | notOwned hphase _ _ _ _ _ hanswered
  | blockedSuccesfully hphase _ _ _ _ hanswered | unlockedSuccesfully hphase _ _ _ hanswered =>
      -- the answer has come
      left
      rw [hphase] at hreads
      simp [SistemaState.thread, hget, hphase, hreads, SistemaState.recvAnswer, hanswered.2,
        recvKeyState,
        recvBlockedByExecutingEsi]
  | inquiring _ _ _ _ hasking =>
      right
      have hfree :=
        hfits.trans (if_neg (by simp [SistemaState.betweenAnswers, hasking.1, hasking.2]))
      refine coordinatorMessage_isSome hasking.1 ?_
      simp only [coordinatorBranch, semWait_of_free hfree, Option.bind_eq_bind, Option.bind_some]
      split <;> rfl
  | inquiringOwner _ _ _ _ hinquired _ hasking =>
      right
      refine coordinatorMessage_isSome hasking.1 ?_
      simp only [coordinatorBranch, hinquired, keyIsBlockedByExecutingEsi, hexecution,
        Option.bind_eq_bind, Option.bind_some]
      split <;> rfl
  | blocking _ _ _ _ hinquired _ _ hasking =>
      right
      have hfree :=
        hfits.trans (if_neg (by simp [SistemaState.betweenAnswers, hasking.1, hasking.2]))
      refine coordinatorMessage_isSome hasking.1 ?_
      simp [coordinatorBranch, semWait_of_free hfree, hinquired, addNewKeyBlocker, hexecution]
  | unblocking _ _ _ _ hasking =>
      right
      have hfree :=
        hfits.trans (if_neg (by simp [SistemaState.betweenAnswers, hasking.1, hasking.2]))
      refine coordinatorMessage_isSome hasking.1 ?_
      simp [coordinatorBranch, semWait_of_free hfree]
  | ordered hphase | everythingOk hphase | youAreBlocked hphase | illegal hphase
  | scriptEnd hphase | succeeded hphase | reportedBlocked hphase =>
      rw [hphase] at hinFlight
      cases hinFlight

/-- The ESI does not go back. -/
theorem remaining_run {statement : Statement} {after : Esi}
    (hknown : statement.Known sistema.planificador sistema.toCoordinador esi.orders esi.phase)
    (hrun : esi.run = some after) : after.phase.remaining ≤ esi.phase.remaining := by
  obtain ⟨fd, lines, phase, orders, results, alive, connected⟩ := esi
  simp only [Esi.run] at hrun
  split at hrun
  swap
  · cases hrun
  split at hrun
  · split at hrun
    · exact absurd hknown (Nat.succ_ne_zero _)
    · cases hrun
  · obtain rfl := Option.some.inj hrun
    exact Nat.le_refl _
  · obtain rfl := Option.some.inj hrun
    exact Nat.le_refl _
  · obtain rfl := Option.some.inj hrun
    exact Nat.le_refl _
  · obtain rfl := Option.some.inj hrun
    exact Nat.le_refl _
  · cases hrun

/-- **The step lemma**: a step of the thread or of the scheduler brings the answer nearer,
and no other step takes it away. -/
theorem remaining_of_step {statement : Statement} (h : Follows statement who sistema)
    {action : Action} (hstep : step config sistema action = some next) :
    (if advances action then 1 else 0) + next.remaining who ≤ sistema.remaining who := by
  obtain ⟨hinv, hexecuting, esi, hget, hconnected, hfd, hknown⟩ := h
  have hlt := (List.getElem?_eq_some_iff.mp hget).1
  cases action with
  | thread other succeeds =>
      obtain ⟨changed, hother, hopen, hexecution, -⟩ := hinv.engaged_of_thread hstep
      have hsocket := (List.cons.inj (hexecuting.symm.trans hexecution)).1
      obtain rfl := hinv.sockets.unique _ _ _ _ hget hother hconnected hopen (hfd.trans hsocket)
      obtain rfl := Option.some.inj (hget.symm.trans hother)
      obtain ⟨phase, messages, hmoves, hesis, hmessages⟩ := of_thread hget hstep
      have hafter : next.esis[who]? = some { esi with phase := phase } := by
        rw [hesis, List.getElem?_set_self hlt]
      have hlower := hmoves.remaining
      rw [remaining_eq hget, remaining_eq hafter, hmessages, List.length_append, List.length_map]
      simp only [advances, if_true]
      omega
  | coordinatorMessage =>
      obtain ⟨_, _, rest, _, _, hmessages, _, hnext⟩ := of_coordinatorMessage hstep
      have hafter : next.esis[who]? = some esi := by rw [hnext, hget]
      have hrest : next.toPlanificador = rest := by rw [hnext]
      rw [remaining_eq hget, remaining_eq hafter, hmessages, hrest, List.length_cons]
      simp only [advances, if_true]
      omega
  | esi other =>
      by_cases heq : other = who
      · subst heq
        obtain ⟨changed, hother, hrest⟩ := Option.bind_eq_some_iff.mp hstep
        obtain rfl := Option.some.inj (hother.symm.trans hget)
        obtain ⟨after, hrun, hrest⟩ := Option.bind_eq_some_iff.mp hrest
        obtain rfl := Option.some.inj hrest
        have hlower := remaining_run hknown hrun
        have hafter : (sistema.esis.set other after)[other]? = some after :=
          List.getElem?_set_self hlt
        simp only [SistemaState.remaining, SistemaState.phaseOf, hafter, hget, advances,
          Option.map_some,
          Option.elim_some, Bool.false_eq_true, if_false]
        omega
      · have hphase := phaseOf_of_step hlt (by simpa using heq) (by simp) hstep
        have hmessages := (aside_step (by simp) (by simp) hstep).messages
        rw [SistemaState.remaining, SistemaState.remaining, hphase, hmessages]
        simp [advances]
  | connect | executingEsi | endOfTurn | console | die =>
      have hphase := phaseOf_of_step hlt (by simp) (by simp) hstep
      have hmessages := (aside_step (by simp) (by simp) hstep).messages
      rw [SistemaState.remaining, SistemaState.remaining, hphase, hmessages]
      simp [advances]

/-- A statement that is followed, with the semaphore as it should be. -/
structure Answering (statement : Statement) (who : ℕ) (sistema : SistemaState config) : Prop where
  follows : Follows statement who sistema
  fits : sistema.SemaphoreFits

namespace Answering

variable {statement : Statement}

theorem step (h : Answering statement who sistema) {action : Action}
    (hpace : keepsPace sistema action = true) (hunread : readsResult action = false)
    (hstep : Sistema.step config sistema action = some next) : Answering statement who next :=
  ⟨h.follows.step hpace hunread hstep, semaphoreFits_step h.follows.inv h.fits hstep⟩

/-- **While the statement is in flight** a step brings the answer nearer. -/
theorem exists_step (h : Answering statement who sistema)
    (hget : sistema.esis[who]? = some esi) (hinFlight : esi.phase.inFlight = true) :
    ∃ action next, keepsPace sistema action = true ∧ advances action = true ∧
      Sistema.step config sistema action = some next := by
  obtain ⟨hinv, hexecuting, followed, hfollowed, hconnected, hfd, hknown⟩ := h.follows
  obtain rfl := Option.some.inj (hget.symm.trans hfollowed)
  have hrequest : ∀ {operation : EsiOperation}, esi.phase = .requested operation →
      (handleRequest operation true).isSome = true := by
    intro operation hphase
    rw [hphase] at hknown
    obtain ⟨-, -, hnot, -⟩ := hknown
    cases operation with
    | get key => exact absurd rfl (hnot key)
    | set key value | store key => rfl
  obtain ⟨-, hexecution, hengaged, hothers⟩ := hinv.engaged_of_inFlight hget hinFlight
  obtain hthread | hmessage :=
    isSome_of_inFlight hget hexecution hengaged hothers h.fits hrequest hinFlight
  · obtain ⟨next, hnext⟩ := Option.isSome_iff_exists.mp hthread
    exact ⟨.thread who true, next, rfl, rfl, hnext⟩
  · obtain ⟨next, hnext⟩ := Option.isSome_iff_exists.mp hmessage
    refine ⟨.coordinatorMessage, next, ?_, rfl, hnext⟩
    rw [keepsPace, schedulerEvent]
    cases sistema.toPlanificador <;> rfl

/-- **A statement that is not answered** can be brought nearer to its answer. -/
theorem exists_advance (h : Answering statement who sistema)
    (hunreported : (sistema.phaseOf who).any Phase.unreported = true)
    (hunanswered : ¬ ∃ reply, sistema.phaseOf who = some (.replied reply)) :
    ∃ action next, (keepsPace sistema action = true ∧ advances action = true) ∧
      Sistema.step config sistema action = some next ∧
        (Answering statement who next ∧ (next.phaseOf who).any Phase.unreported = true) ∧
          next.remaining who < sistema.remaining who := by
  obtain ⟨-, -, esi, hget, -⟩ := h.follows
  have hinFlight : esi.phase.inFlight = true := by
    have hphase : sistema.phaseOf who = some esi.phase := by
      rw [SistemaState.phaseOf, hget, Option.map_some]
    rw [hphase, Option.any_some] at hunreported
    rw [hphase] at hunanswered
    cases hesi : esi.phase with
    | replied reply => exact absurd ⟨reply, congrArg some hesi⟩ hunanswered
    | sendScriptEnd | waitForExecutionOrder =>
        rw [hesi] at hunreported
        cases hunreported
    | sent | recvKeyState | recvBlockedByExecutingEsi | blockKey | requested | unblockKey => rfl
  obtain ⟨action, next, hpace, hadvances, hstep⟩ := h.exists_step hget hinFlight
  have hunread : readsResult action = false := by cases action <;> first | rfl | cases hadvances
  have hlower := remaining_of_step h.follows hstep
  rw [if_pos hadvances] at hlower
  exact ⟨action, next, ⟨hpace, hadvances⟩, hstep, ⟨h.step hpace hunread hstep,
    unreported_of_step hadvances hunreported hstep⟩, by omega⟩

end Answering

theorem semaphoreFits_of_runs {actions : List Action}
    (hrun : (step config).Runs (fun sistema action => keepsPace sistema action = true)
      (SistemaState.init config) actions sistema) : sistema.SemaphoreFits := by
  refine (hrun.invariant (fun sistema => SistemaInvariant sistema ∧ sistema.SemaphoreFits)
    (fun hinv hpace hstep => ?_) ⟨.init config, rfl⟩).2
  exact ⟨hinv.1.step hpace hstep, semaphoreFits_step hinv.1 hinv.2 hstep⟩

end SockMyPort.Sistema
