/-
# Every answer reaches its thread

While one thread at a time is in an exchange with the scheduler, the semaphores and what is
on the connection follow from where that exchange is. A thread between its two questions
keeps the other one from receiving, and the scheduler keeps its console from asking.
-/

import SockMyPort.Planificador.Mutex
import SockMyPort.Sistema.Invariant
import SockMyPort.Sistema.PendingProtocol

namespace SockMyPort.Sistema

open SockMyPort.Commons SockMyPort.Planificador Library

variable {config : Config}

/-! ## Questions and answers -/

namespace Phase

/-- The operation waits for an answer of the scheduler. -/
def awaits : Phase → Bool
  | .recvKeyState _ | .recvBlockedByExecutingEsi _ | .blockKey _ | .unblockKey _ => true
  | _ => false

/-- The thread has been told that the key is blocked. -/
def halfway : Phase → Bool
  | .recvBlockedByExecutingEsi _ => true
  | _ => false

/-- The message that belongs to a phase. -/
def asks : Phase → CoordinatorMessage → Bool
  | .recvKeyState _, .isThisKeyBlocked _ => true
  | .recvBlockedByExecutingEsi _, .isKeyBlockedByExecutingEsi => true
  | .blockKey _, .blockKey => true
  | .unblockKey _, .unlockKey _ => true
  | _, _ => false

/-- The answers that a phase expects. -/
def fits : Phase → CoordinatorAnswer → Bool
  | .recvKeyState _, .keyIsBlocked | .recvKeyState _, .keyIsNotBlocked => true
  | .recvBlockedByExecutingEsi _, .keyBlockedByExecutingEsi
  | .recvBlockedByExecutingEsi _, .keyNotBlockedByExecutingEsi => true
  | .blockKey _, .keyBlockedSuccesfully => true
  | .unblockKey _, .keyUnlockedSuccesfully => true
  | _, _ => false

theorem message_of_halfway {phase : Phase} {message : CoordinatorMessage}
    (hsecond : phase.halfway = true) (hasks : phase.asks message = true) :
    message = .isKeyBlockedByExecutingEsi := by
  cases phase with
  | recvBlockedByExecutingEsi operation => cases message <;> first | rfl | cases hasks
  | _ => cases hsecond

theorem awaits_of_halfway {phase : Phase} (hsecond : phase.halfway = true) :
    phase.awaits = true := by
  cases phase with
  | recvBlockedByExecutingEsi operation => rfl
  | _ => cases hsecond

theorem ne_keyIsBlocked_of_halfway {phase : Phase} {answer : CoordinatorAnswer}
    (hsecond : phase.halfway = true) (hfits : phase.fits answer = true) :
    answer ≠ .keyIsBlocked := by
  rintro rfl
  cases phase with
  | recvBlockedByExecutingEsi operation => cases hfits
  | _ => cases hsecond

end Phase

/-- The phase of an ESI whose operation waits for an answer. -/
def Esi.awaited (esi : Esi) : Option Phase := if esi.phase.awaits then some esi.phase else none

/-- The phase in which the operation of an ESI waits for an answer. -/
def awaitedIn (esis : List Esi) (who : ℕ) : Option Phase := esis[who]?.bind Esi.awaited

/-- What the exchanges depend on. -/
structure ConnectionView where
  phases : ℕ → Option Phase
  unsent : ℕ → Bool
  /-- The messages that expect an answer. -/
  requests : List (CoordinatorMessage × ℕ)
  mutex : ℕ
  incoming : List FromScheduler
  handler : HandlerPhase
  pendingProtocol : Option SchedulerAnswer
  pendingProtocolSem : ℕ
  protocolRecvSem : ℕ

namespace ConnectionView

/-- The thread has sent something and has not taken the last answer to it. -/
def inExchange (view : ConnectionView) (who : ℕ) : Bool :=
  (view.phases who).any fun phase => phase.halfway || !view.unsent who

/-- One thread is in an exchange. -/
def OnlyExchange (view : ConnectionView) (who : ℕ) (phase : Phase) : Prop :=
  view.phases who = some phase ∧ ∀ other, view.inExchange other = true ↔ other = who

/-- The thread of the connection may receive. -/
def Open (view : ConnectionView) : Prop :=
  view.pendingProtocolSem = 0 ∧
    ((view.handler = .waiting ∧ view.protocolRecvSem = 1) ∨
      (view.handler ≠ .waiting ∧ view.protocolRecvSem = 0))

/-- Another thread may receive. -/
def Closed (view : ConnectionView) : Prop :=
  view.pendingProtocolSem = 0 ∧ view.handler = .waiting ∧ view.protocolRecvSem = 0

/-- A thread has gone on, and is about to send when its operation waits for an answer. -/
def goOn (view : ConnectionView) (who : ℕ) (after : Option Phase) : ConnectionView :=
  { view with
    phases := Function.update view.phases who after
    unsent := Function.update view.unsent who after.isSome }

/-- It is in an exchange afterwards when it is halfway. -/
theorem inExchange_goOn (view : ConnectionView) (who other : ℕ) (after : Option Phase) :
    (view.goOn who after).inExchange other =
      if other = who then after.any Phase.halfway else view.inExchange other := by
  by_cases heq : other = who
  · subst heq
    cases after <;> simp [goOn, inExchange]
  · simp [goOn, inExchange, heq]

end ConnectionView

/-- Only queries of the console. -/
def OnlyQueries (items : List FromScheduler) : Prop := ∀ item ∈ items, item.requester = none

/-- The semaphore of the scheduler after an answer: nothing else is sent while it is zero. -/
def LeavesMutex (answer : CoordinatorAnswer) (mutex : ℕ) (behind : List FromScheduler) : Prop :=
  (answer = .keyIsBlocked ∧ mutex = 0 ∧ behind = []) ∨ (answer ≠ .keyIsBlocked ∧ mutex = 1)

/-- Where the only exchange is, with the answers that have not been taken. -/
inductive Talk (view : ConnectionView) : List SchedulerAnswer → Prop
  | silent (hnobody : ∀ who, view.inExchange who = false) (hrequests : view.requests = [])
      (hqueries : OnlyQueries view.incoming) (hopen : view.Open) (hmutex : view.mutex = 1) :
      Talk view []
  | asked {who : ℕ} {phase : Phase} {message : CoordinatorMessage}
      (honly : view.OnlyExchange who phase) (hfirst : phase.halfway = false)
      (hasks : phase.asks message = true) (hrequests : view.requests = [(message, who)])
      (hqueries : OnlyQueries view.incoming) (hopen : view.Open) (hmutex : view.mutex = 1) :
      Talk view []
  | answered {who : ℕ} {phase : Phase} {answer : SchedulerAnswer}
      {before after : List FromScheduler}
      (honly : view.OnlyExchange who phase) (hown : answer.requester = who)
      (hfirst : phase.halfway = false) (hfits : phase.fits answer.code = true)
      (hrequests : view.requests = [])
      (hincoming : view.incoming = before ++ .answer answer :: after)
      (hbefore : OnlyQueries before) (hafter : OnlyQueries after) (hopen : view.Open)
      (hmutex : LeavesMutex answer.code view.mutex after) : Talk view [answer]
  | delivered {who : ℕ} {phase : Phase} {answer : SchedulerAnswer}
      (honly : view.OnlyExchange who phase) (hown : answer.requester = who)
      (hfirst : phase.halfway = false) (hfits : phase.fits answer.code = true)
      (hrequests : view.requests = []) (hqueries : OnlyQueries view.incoming)
      (hslot : view.pendingProtocol = some answer) (hsem : view.pendingProtocolSem = 1)
      (hclosed : view.handler = .waiting ∧ view.protocolRecvSem = 0)
      (hmutex : LeavesMutex answer.code view.mutex view.incoming) : Talk view [answer]
  | halfway {who : ℕ} {phase : Phase} (honly : view.OnlyExchange who phase)
      (hsecond : phase.halfway = true) (hunsent : view.unsent who = true)
      (hrequests : view.requests = []) (hincoming : view.incoming = []) (hclosed : view.Closed)
      (hmutex : view.mutex = 0) : Talk view []
  | askedAgain {who : ℕ} {phase : Phase} (honly : view.OnlyExchange who phase)
      (hsecond : phase.halfway = true) (hsent : view.unsent who = false)
      (hrequests : view.requests = [(.isKeyBlockedByExecutingEsi, who)])
      (hincoming : view.incoming = []) (hclosed : view.Closed) (hmutex : view.mutex = 0) :
      Talk view []
  | answeredAgain {who : ℕ} {phase : Phase} {answer : SchedulerAnswer} {after : List FromScheduler}
      (honly : view.OnlyExchange who phase) (hown : answer.requester = who)
      (hsecond : phase.halfway = true) (hsent : view.unsent who = false)
      (hfits : phase.fits answer.code = true) (hrequests : view.requests = [])
      (hincoming : view.incoming = .answer answer :: after) (hafter : OnlyQueries after)
      (hclosed : view.Closed) (hmutex : view.mutex = 1) : Talk view [answer]

namespace Talk

variable {view : ConnectionView} {pending : List SchedulerAnswer} {key : CString}

theorem of_eq {other : ConnectionView} (hsame : other = view) (htalk : Talk view pending) :
    Talk other pending := hsame ▸ htalk

theorem filter_onlyQueries {items : List FromScheduler} (hitems : OnlyQueries items) :
    items.filter (fun item => item.requester.isSome) = [] := by
  apply List.filter_eq_nil_iff.mpr
  intro item hmem
  simp [hitems item hmem]

/-- The answers that have not been taken are in `pending_protocol` or on the connection. -/
theorem onTheWay (htalk : Talk view pending) :
    (if view.pendingProtocolSem = 0 then [] else
      view.pendingProtocol.toList.map FromScheduler.answer) ++
      view.incoming.filter (fun item => item.requester.isSome) = pending.map .answer := by
  cases htalk with
  | silent _ _ hqueries hopen => rw [if_pos hopen.1, filter_onlyQueries hqueries]; rfl
  | asked _ _ _ _ hqueries hopen => rw [if_pos hopen.1, filter_onlyQueries hqueries]; rfl
  | answered _ _ _ _ _ hincoming hbefore hafter hopen =>
      rw [if_pos hopen.1, hincoming, List.filter_append, filter_onlyQueries hbefore,
        List.filter_cons_of_pos rfl, filter_onlyQueries hafter]
      rfl
  | delivered _ _ _ _ _ hqueries hslot hsem =>
      rw [if_neg (by simp [hsem]), hslot, filter_onlyQueries hqueries]
      rfl
  | halfway _ _ _ _ hincoming hclosed => rw [if_pos hclosed.1, hincoming]; rfl
  | askedAgain _ _ _ _ hincoming hclosed => rw [if_pos hclosed.1, hincoming]; rfl
  | answeredAgain _ _ _ _ _ _ hincoming hafter hclosed =>
      rw [if_pos hclosed.1, hincoming, List.filter_cons_of_pos rfl, filter_onlyQueries hafter]
      rfl

/-! ## The thread that receives from the scheduler -/

theorem startsReceiving (htalk : Talk view pending) (hhandler : view.handler = .waiting)
    {count : ℕ} (hsem : view.protocolRecvSem = count + 1) :
    Talk { view with protocolRecvSem := count, handler := .receiving } pending := by
  have hopened : view.Open →
      ConnectionView.Open { view with protocolRecvSem := count, handler := .receiving } := by
    rintro ⟨hnone, ⟨-, hone⟩ | ⟨hbusy, -⟩⟩
    · exact ⟨hnone, .inr ⟨by simp, by simpa using hsem.symm.trans hone⟩⟩
    · exact absurd hhandler hbusy
  cases htalk with
  | silent hnobody hrequests hqueries hopen hmutex =>
      exact .silent hnobody hrequests hqueries (hopened hopen) hmutex
  | asked honly hfirst hasks hrequests hqueries hopen hmutex =>
      exact .asked honly hfirst hasks hrequests hqueries (hopened hopen) hmutex
  | answered honly hown hfirst hfits hrequests hincoming hbefore hafter hopen hmutex =>
      exact .answered honly hown hfirst hfits hrequests hincoming hbefore hafter (hopened hopen)
        hmutex
  | delivered _ _ _ _ _ _ _ _ hclosed => rw [hclosed.2] at hsem; cases hsem
  | halfway _ _ _ _ _ hclosed => rw [hclosed.2.2] at hsem; cases hsem
  | askedAgain _ _ _ _ _ hclosed => rw [hclosed.2.2] at hsem; cases hsem
  | answeredAgain _ _ _ _ _ _ _ _ hclosed => rw [hclosed.2.2] at hsem; cases hsem

theorem receivesQuery (htalk : Talk view pending) (hhandler : view.handler = .receiving)
    {rest : List FromScheduler} (hincoming : view.incoming = .keyStatus key :: rest) :
    Talk { view with incoming := rest, handler := .answering key } pending := by
  have hbusy : view.handler ≠ .waiting := by simp [hhandler]
  have hopened : view.Open →
      ConnectionView.Open { view with incoming := rest, handler := .answering key } := by
    rintro ⟨hnone, ⟨hwaiting, -⟩ | ⟨-, hzero⟩⟩
    · exact absurd hwaiting hbusy
    · exact ⟨hnone, .inr ⟨by simp, hzero⟩⟩
  have hrest : OnlyQueries view.incoming → OnlyQueries rest := fun hqueries item hmem =>
    hqueries item (hincoming ▸ List.mem_cons_of_mem _ hmem)
  cases htalk with
  | silent hnobody hrequests hqueries hopen hmutex =>
      exact .silent hnobody hrequests (hrest hqueries) (hopened hopen) hmutex
  | asked honly hfirst hasks hrequests hqueries hopen hmutex =>
      exact .asked honly hfirst hasks hrequests (hrest hqueries) (hopened hopen) hmutex
  | @answered _ _ _ before _ honly hown hfirst hfits hrequests hstream hbefore hafter hopen
      hmutex =>
      rw [hincoming] at hstream
      cases before with
      | nil => cases (List.cons.inj hstream).1
      | cons query before =>
          have hbefore' : OnlyQueries before := fun item hmem =>
            hbefore item (List.mem_cons_of_mem _ hmem)
          exact .answered honly hown hfirst hfits hrequests (List.cons.inj hstream).2 hbefore'
            hafter (hopened hopen) hmutex
  | delivered _ _ _ _ _ _ _ _ hclosed => exact absurd hclosed.1 hbusy
  | halfway _ _ _ _ _ hclosed => exact absurd hclosed.2.1 hbusy
  | askedAgain _ _ _ _ _ hclosed => exact absurd hclosed.2.1 hbusy
  | answeredAgain _ _ _ _ _ _ _ _ hclosed => exact absurd hclosed.2.1 hbusy

theorem receivesAnswer (htalk : Talk view pending) (hhandler : view.handler = .receiving)
    {answer : SchedulerAnswer} {rest : List FromScheduler}
    (hincoming : view.incoming = .answer answer :: rest) :
    Talk { view with
      incoming := rest
      pendingProtocol := some answer
      pendingProtocolSem := view.pendingProtocolSem + 1
      handler := .waiting } pending := by
  have hbusy : view.handler ≠ .waiting := by simp [hhandler]
  have hnot : ¬ OnlyQueries view.incoming := fun hqueries => by
    cases hqueries _ (hincoming ▸ List.mem_cons_self)
  cases htalk with
  | silent _ _ hqueries => exact absurd hqueries hnot
  | asked _ _ _ _ hqueries => exact absurd hqueries hnot
  | @answered _ _ _ before _ honly hown hfirst hfits hrequests hstream hbefore hafter hopen
      hmutex =>
      rw [hincoming] at hstream
      cases before with
      | nil =>
          obtain ⟨hsame, rfl⟩ := List.cons.inj hstream
          obtain rfl := FromScheduler.answer.inj hsame
          obtain ⟨hnone, ⟨hwaiting, -⟩ | ⟨-, hzero⟩⟩ := hopen
          · exact absurd hwaiting hbusy
          · exact .delivered honly hown hfirst hfits hrequests hafter rfl
              (congrArg (· + 1) hnone) ⟨rfl, hzero⟩ hmutex
      | cons query before =>
          have hquery := hbefore query List.mem_cons_self
          rw [← (List.cons.inj hstream).1] at hquery
          cases hquery
  | delivered _ _ _ _ _ _ _ _ hclosed => exact absurd hclosed.1 hbusy
  | halfway _ _ _ _ _ hclosed => exact absurd hclosed.2.1 hbusy
  | askedAgain _ _ _ _ _ hclosed => exact absurd hclosed.2.1 hbusy
  | answeredAgain _ _ _ _ _ _ _ _ hclosed => exact absurd hclosed.2.1 hbusy

theorem answersQuery (htalk : Talk view pending) (hhandler : view.handler = .answering key) :
    Talk { view with protocolRecvSem := view.protocolRecvSem + 1, handler := .waiting }
      pending := by
  have hbusy : view.handler ≠ .waiting := by simp [hhandler]
  have hopened : view.Open → ConnectionView.Open
      { view with protocolRecvSem := view.protocolRecvSem + 1, handler := .waiting } := by
    rintro ⟨hnone, ⟨hwaiting, -⟩ | ⟨-, hzero⟩⟩
    · exact absurd hwaiting hbusy
    · exact ⟨hnone, .inl ⟨rfl, congrArg (· + 1) hzero⟩⟩
  cases htalk with
  | silent hnobody hrequests hqueries hopen hmutex =>
      exact .silent hnobody hrequests hqueries (hopened hopen) hmutex
  | asked honly hfirst hasks hrequests hqueries hopen hmutex =>
      exact .asked honly hfirst hasks hrequests hqueries (hopened hopen) hmutex
  | answered honly hown hfirst hfits hrequests hincoming hbefore hafter hopen hmutex =>
      exact .answered honly hown hfirst hfits hrequests hincoming hbefore hafter (hopened hopen)
        hmutex
  | delivered _ _ _ _ _ _ _ _ hclosed => exact absurd hclosed.1 hbusy
  | halfway _ _ _ _ _ hclosed => exact absurd hclosed.2.1 hbusy
  | askedAgain _ _ _ _ _ hclosed => exact absurd hclosed.2.1 hbusy
  | answeredAgain _ _ _ _ _ _ _ _ hclosed => exact absurd hclosed.2.1 hbusy

/-- The console asks while it has the semaphore. -/
theorem query (htalk : Talk view pending) (hmutex : view.mutex ≠ 0) :
    Talk { view with incoming := view.incoming ++ [.keyStatus key] } pending := by
  have hmore : ∀ {items : List FromScheduler}, OnlyQueries items →
      OnlyQueries (items ++ [.keyStatus key]) := by
    intro items hitems item hmem
    rcases List.mem_append.mp hmem with hbefore | hlast
    · exact hitems item hbefore
    · rw [List.mem_singleton.mp hlast]
      rfl
  have hleaves : ∀ {answer : CoordinatorAnswer} {behind : List FromScheduler},
      LeavesMutex answer view.mutex behind →
      LeavesMutex answer view.mutex (behind ++ [.keyStatus key]) := by
    rintro answer behind (⟨-, hzero, -⟩ | hone)
    · exact absurd hzero hmutex
    · exact .inr hone
  cases htalk with
  | silent hnobody hrequests hqueries hopen hone =>
      exact .silent hnobody hrequests (hmore hqueries) hopen hone
  | asked honly hfirst hasks hrequests hqueries hopen hone =>
      exact .asked honly hfirst hasks hrequests (hmore hqueries) hopen hone
  | answered honly hown hfirst hfits hrequests hincoming hbefore hafter hopen hleft =>
      refine .answered honly hown hfirst hfits hrequests ?_ hbefore (hmore hafter) hopen
        (hleaves hleft)
      show view.incoming ++ _ = _
      rw [hincoming, List.append_assoc, List.cons_append]
  | delivered honly hown hfirst hfits hrequests hqueries hslot hsem hclosed hleft =>
      exact .delivered honly hown hfirst hfits hrequests (hmore hqueries) hslot hsem hclosed
        (hleaves hleft)
  | halfway _ _ _ _ _ _ hzero => exact absurd hzero hmutex
  | askedAgain _ _ _ _ _ _ hzero => exact absurd hzero hmutex
  | answeredAgain honly hown hsecond hsent hfits hrequests hincoming hafter hclosed hone =>
      refine .answeredAgain honly hown hsecond hsent hfits hrequests ?_ (hmore hafter) hclosed hone
      show view.incoming ++ _ = _
      rw [hincoming, List.cons_append]

/-! ## The scheduler -/

/-- The scheduler answers the only request. -/
theorem answers (htalk : Talk view pending) {message : CoordinatorMessage} {sender : ℕ}
    {rest : List (CoordinatorMessage × ℕ)} (hrequest : view.requests = (message, sender) :: rest) :
    ∃ phase : Phase, rest = [] ∧ pending = [] ∧ phase.asks message = true ∧
      view.mutex = (if phase.halfway then 0 else 1) ∧
      ∀ (answer : SchedulerAnswer) (mutex : ℕ), answer.requester = sender →
        phase.fits answer.code = true → LeavesMutex answer.code mutex [] →
        Talk { view with
          requests := []
          mutex := mutex
          incoming := view.incoming ++ [.answer answer] } [answer] := by
  have hnone : view.requests ≠ [] := by simp [hrequest]
  cases htalk with
  | silent _ hrequests => exact absurd hrequests hnone
  | @asked who phase _ honly hfirst hasks hrequests hqueries hopen hmutex =>
      rw [hrequest] at hrequests
      obtain ⟨hsame, rfl⟩ := List.cons.inj hrequests
      obtain ⟨rfl, rfl⟩ := Prod.mk.inj hsame
      refine ⟨phase, rfl, rfl, hasks, by simp [hmutex, hfirst], ?_⟩
      intro answer mutex hown hfits hleaves
      exact .answered honly hown hfirst hfits rfl rfl hqueries (fun _ hmem => by cases hmem) hopen
        hleaves
  | answered _ _ _ _ hrequests => exact absurd hrequests hnone
  | delivered _ _ _ _ hrequests => exact absurd hrequests hnone
  | halfway _ _ _ hrequests => exact absurd hrequests hnone
  | @askedAgain who phase honly hsecond hsent hrequests hincoming hclosed hmutex =>
      rw [hrequest] at hrequests
      obtain ⟨hsame, rfl⟩ := List.cons.inj hrequests
      obtain ⟨rfl, rfl⟩ := Prod.mk.inj hsame
      cases phase with
      | recvBlockedByExecutingEsi operation =>
          refine ⟨.recvBlockedByExecutingEsi operation, rfl, rfl, rfl, hmutex, ?_⟩
          intro answer mutex hown hfits hleaves
          obtain ⟨hblocked, -⟩ | ⟨-, hone⟩ := hleaves
          · rw [hblocked] at hfits
            cases hfits
          · have hstream : view.incoming ++ [.answer answer] = .answer answer :: [] := by
              rw [hincoming, List.nil_append]
            exact .answeredAgain honly hown hsecond hsent hfits rfl hstream
              (fun _ hmem => by cases hmem) hclosed hone
      | _ => cases hsecond
  | answeredAgain _ _ _ _ _ hrequests => exact absurd hrequests hnone

/-! ## The threads -/

/-- A thread begins an exchange alone, or goes on with its exchange. -/
theorem sends (htalk : Talk view pending) {who : ℕ} {phase : Phase} {message : CoordinatorMessage}
    (hphase : view.phases who = some phase) (hasks : phase.asks message = true)
    (hunsent : view.unsent who = true)
    (halone : phase.halfway = true ∨ ∀ other, view.inExchange other = false) :
    Talk { view with
      unsent := Function.update view.unsent who false
      requests := view.requests ++ [(message, who)] } pending := by
  have hexchange : ∀ other, ConnectionView.inExchange { view with
      unsent := Function.update view.unsent who false
      requests := view.requests ++ [(message, who)] } other = true ↔
        other = who ∨ view.inExchange other = true := by
    intro other
    by_cases heq : other = who
    · subst heq
      simp [ConnectionView.inExchange, hphase]
    · simp [ConnectionView.inExchange, heq]
  cases hsecond : phase.halfway with
  | true =>
      have hin : view.inExchange who = true := by
        simp [ConnectionView.inExchange, hphase, hsecond]
      have hone : ∀ {engaged : ℕ} {other : Phase}, view.OnlyExchange engaged other →
          who = engaged ∧ phase = other := by
        rintro engaged other ⟨hother, honly⟩
        obtain rfl := (honly who).mp hin
        exact ⟨rfl, Option.some.inj (hphase.symm.trans hother)⟩
      cases htalk with
      | silent hnobody =>
          rw [hnobody who] at hin
          cases hin
      | asked honly hfirst => rw [(hone honly).2, hfirst] at hsecond; cases hsecond
      | answered honly _ hfirst => rw [(hone honly).2, hfirst] at hsecond; cases hsecond
      | delivered honly _ hfirst => rw [(hone honly).2, hfirst] at hsecond; cases hsecond
      | halfway honly _ _ hrequests hincoming hclosed hmutex =>
          obtain ⟨rfl, rfl⟩ := hone honly
          have hmessage := Phase.message_of_halfway hsecond hasks
          refine .askedAgain ⟨hphase, fun other => ?_⟩ hsecond (Function.update_self ..) ?_
            hincoming
            hclosed hmutex
          · rw [hexchange, honly.2, or_self]
          · show view.requests ++ _ = _
            rw [hrequests, hmessage, List.nil_append]
      | askedAgain honly _ hsent => rw [(hone honly).1, hsent] at hunsent; cases hunsent
      | answeredAgain honly _ _ hsent => rw [(hone honly).1, hsent] at hunsent; cases hunsent
  | false =>
      have hnobody := halone.resolve_left (by simp [hsecond])
      have hone : ∀ {engaged : ℕ} {other : Phase}, ¬ view.OnlyExchange engaged other := by
        rintro engaged other ⟨-, honly⟩
        have hin := (honly engaged).mpr rfl
        rw [hnobody engaged] at hin
        cases hin
      cases htalk with
      | silent _ hrequests hqueries hopen hmutex =>
          refine .asked ⟨hphase, fun other => ?_⟩ hsecond hasks ?_ hqueries hopen hmutex
          · rw [hexchange, hnobody other]
            simp
          · show view.requests ++ _ = _
            rw [hrequests, List.nil_append]
      | asked honly | answered honly | delivered honly | halfway honly | askedAgain honly
      | answeredAgain honly => exact absurd honly hone

/-- A thread that is in no exchange goes on, and is in none afterwards. -/
theorem goesOn (htalk : Talk view pending) {who : ℕ} {after : Option Phase}
    (hphase : view.phases who = none) (hafter : after.any Phase.halfway = false) :
    Talk (view.goOn who after) pending := by
  have hout : view.inExchange who = false := by simp [ConnectionView.inExchange, hphase]
  have hexchange : ∀ other, (view.goOn who after).inExchange other = view.inExchange other := by
    intro other
    rw [ConnectionView.inExchange_goOn]
    split
    · rename_i heq
      rw [hafter, heq, hout]
    · rfl
  have hother : ∀ {engaged : ℕ} {phase : Phase}, view.OnlyExchange engaged phase →
      engaged ≠ who := by
    rintro engaged phase ⟨hengaged, -⟩ rfl
    rw [hphase] at hengaged
    cases hengaged
  have hstays : ∀ {engaged : ℕ} {phase : Phase}, view.OnlyExchange engaged phase →
      (view.goOn who after).OnlyExchange engaged phase := by
    rintro engaged phase honly
    refine ⟨?_, fun other => by rw [hexchange]; exact honly.2 other⟩
    show Function.update view.phases who after engaged = some phase
    rw [Function.update_of_ne (hother honly)]
    exact honly.1
  have hunsent : ∀ {engaged : ℕ} {phase : Phase}, view.OnlyExchange engaged phase →
      (view.goOn who after).unsent engaged = view.unsent engaged := fun honly =>
    Function.update_of_ne (hother honly) ..
  cases htalk with
  | silent hnobody hrequests hqueries hopen hmutex =>
      exact .silent (fun other => (hexchange other).trans (hnobody other)) hrequests hqueries hopen
        hmutex
  | asked honly hfirst hasks hrequests hqueries hopen hmutex =>
      exact .asked (hstays honly) hfirst hasks hrequests hqueries hopen hmutex
  | answered honly hown hfirst hfits hrequests hincoming hbefore hafter hopen hmutex =>
      exact .answered (hstays honly) hown hfirst hfits hrequests hincoming hbefore hafter hopen
        hmutex
  | delivered honly hown hfirst hfits hrequests hqueries hslot hsem hclosed hmutex =>
      exact .delivered (hstays honly) hown hfirst hfits hrequests hqueries hslot hsem hclosed hmutex
  | halfway honly hsecond hwaits hrequests hincoming hclosed hmutex =>
      exact .halfway (hstays honly) hsecond ((hunsent honly).trans hwaits) hrequests hincoming
        hclosed hmutex
  | askedAgain honly hsecond hsent hrequests hincoming hclosed hmutex =>
      exact .askedAgain (hstays honly) hsecond ((hunsent honly).trans hsent) hrequests hincoming
        hclosed hmutex
  | answeredAgain honly hown hsecond hsent hfits hrequests hincoming hafter hclosed hmutex =>
      exact .answeredAgain (hstays honly) hown hsecond ((hunsent honly).trans hsent) hfits hrequests
        hincoming hafter hclosed hmutex

/-- The only exchange ends. -/
theorem ended {who : ℕ} {phase : Phase} {after : Option Phase} (honly : view.OnlyExchange who phase)
    (hafter : after.any Phase.halfway = false) (other : ℕ) :
    (view.goOn who after).inExchange other = false := by
  rw [ConnectionView.inExchange_goOn]
  split
  · exact hafter
  · rename_i hne
    exact Bool.eq_false_iff.mpr fun hin => hne ((honly.2 other).mp hin)

/-- A thread takes what is in `pending_protocol`: it is its own answer. The exchange is over,
or the thread is halfway. -/
theorem takesPending (htalk : Talk view pending) {who count : ℕ} {phase : Phase}
    {answer : SchedulerAnswer} (hphase : view.phases who = some phase)
    (hsent : view.unsent who = false) (hsem : view.pendingProtocolSem = count + 1)
    (hslot : view.pendingProtocol = some answer) :
    pending = [answer] ∧ answer.requester = who ∧ phase.fits answer.code = true ∧
      (∀ after : Option Phase, answer.code ≠ .keyIsBlocked → after.any Phase.halfway = false →
        Talk { view.goOn who after with
          pendingProtocolSem := count
          protocolRecvSem := view.protocolRecvSem + 1 } []) ∧
      (∀ after : Phase, answer.code = .keyIsBlocked → after.halfway = true →
        Talk { view.goOn who (some after) with pendingProtocolSem := count } []) := by
  have hin : view.inExchange who = true := by simp [ConnectionView.inExchange, hphase, hsent]
  have hbusy : view.pendingProtocolSem ≠ 0 := by simp [hsem]
  cases htalk with
  | silent _ _ _ hopen => exact absurd hopen.1 hbusy
  | asked _ _ _ _ _ hopen => exact absurd hopen.1 hbusy
  | answered _ _ _ _ _ _ _ _ hopen => exact absurd hopen.1 hbusy
  | @delivered engaged _ _ honly hown _ hfits hrequests hqueries hpending hone hclosed hmutex =>
      obtain rfl := (honly.2 who).mp hin
      obtain rfl := Option.some.inj (hphase.symm.trans honly.1)
      obtain rfl := Option.some.inj (hslot.symm.trans hpending)
      obtain rfl : count = 0 := Nat.succ.inj (hsem.symm.trans hone)
      refine ⟨rfl, hown, hfits, fun after hlast hover => ?_, fun after hblocked hagain => ?_⟩
      · obtain ⟨hblocked, -⟩ | ⟨-, hmutex⟩ := hmutex
        · exact absurd hblocked hlast
        · exact .silent (ended honly hover) hrequests hqueries
            ⟨rfl, .inl ⟨hclosed.1, congrArg (· + 1) hclosed.2⟩⟩ hmutex
      · obtain ⟨-, hzero, hnothing⟩ | ⟨hlast, -⟩ := hmutex
        · have hstill : (view.goOn who (some after)).OnlyExchange who after := by
            refine ⟨Function.update_self .., fun other => ?_⟩
            rw [ConnectionView.inExchange_goOn]
            split
            · rename_i heq
              exact iff_of_true hagain heq
            · exact honly.2 other
          exact .halfway hstill hagain (Function.update_self ..) hrequests hnothing ⟨rfl, hclosed⟩
            hzero
        · exact absurd hblocked hlast
  | halfway _ _ _ _ _ hclosed => exact absurd hclosed.1 hbusy
  | askedAgain _ _ _ _ _ hclosed => exact absurd hclosed.1 hbusy
  | answeredAgain _ _ _ _ _ _ _ _ hclosed => exact absurd hclosed.1 hbusy

/-- A thread receives its second answer, and its exchange is over. -/
theorem takesSecond (htalk : Talk view pending) {who : ℕ} {phase : Phase} {item : FromScheduler}
    {rest : List FromScheduler} (hphase : view.phases who = some phase)
    (hsecond : phase.halfway = true) (hincoming : view.incoming = item :: rest) :
    ∃ answer : SchedulerAnswer, item = .answer answer ∧ pending = [answer] ∧
      answer.requester = who ∧ phase.fits answer.code = true ∧
      ∀ after : Option Phase, after.any Phase.halfway = false →
        Talk { view.goOn who after with
          incoming := rest
          protocolRecvSem := view.protocolRecvSem + 1 } [] := by
  have hin : view.inExchange who = true := by simp [ConnectionView.inExchange, hphase, hsecond]
  have hone : ∀ {engaged : ℕ} {other : Phase}, view.OnlyExchange engaged other →
      who = engaged ∧ phase = other := by
    rintro engaged other ⟨hother, honly⟩
    obtain rfl := (honly who).mp hin
    exact ⟨rfl, Option.some.inj (hphase.symm.trans hother)⟩
  have hsome : view.incoming ≠ [] := by simp [hincoming]
  cases htalk with
  | silent hnobody =>
      rw [hnobody who] at hin
      cases hin
  | asked honly hfirst => rw [(hone honly).2, hfirst] at hsecond; cases hsecond
  | answered honly _ hfirst => rw [(hone honly).2, hfirst] at hsecond; cases hsecond
  | delivered honly _ hfirst => rw [(hone honly).2, hfirst] at hsecond; cases hsecond
  | halfway _ _ _ _ hnothing => exact absurd hnothing hsome
  | askedAgain _ _ _ _ hnothing => exact absurd hnothing hsome
  | @answeredAgain _ _ answer after honly hown _ _ hfits hrequests hstream hafter hclosed hmutex =>
      obtain ⟨rfl, rfl⟩ := hone honly
      obtain ⟨rfl, rfl⟩ := List.cons.inj (hincoming.symm.trans hstream)
      refine ⟨answer, rfl, rfl, hown, hfits, fun after hover => ?_⟩
      exact .silent (ended honly hover) hrequests hafter
        ⟨hclosed.1, .inl ⟨hclosed.2.1, congrArg (· + 1) hclosed.2.2⟩⟩ hmutex

end Talk

end SockMyPort.Sistema
