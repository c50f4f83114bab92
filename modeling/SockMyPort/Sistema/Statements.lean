/-
# Statements are atomic

A statement of an ESI takes up to three questions and answers between the coordinator and
the scheduler, with the turns of all other processes and the console in between. As long
as the steps keep pace it amounts to one step of the table of locked keys: the ESI is
answered, and the table is left, as if nothing else had happened between the statement and
its answer.
-/

import SockMyPort.Sistema.Locks

namespace SockMyPort.Sistema

open SockMyPort.Commons SockMyPort.Planificador Library

variable {config : Config} {sistema next : SistemaState config} {who : ℕ} {esi : Esi}

/-! ## One step -/

/-- A node of the key names the socket. -/
def ownsKey (lockedKeys : List KeyBlocker) (fd : ℤ) (key : CString) : Bool :=
  lockedKeys.any fun blocker => blocker.key = key && blocker.esiId = fd

/-- A statement about a key that is free. -/
def freeStatement (lockedKeys : List KeyBlocker) (fd : ℤ) :
    EsiOperation → CoordinatorReply × List KeyBlocker
  | .get key => (.everythingOk, lockedKeys ++ [⟨key, fd⟩])
  | .set _ _ | .store _ => (.illegalOperation, lockedKeys)

/-- A statement about a key that the ESI owns. -/
def ownedStatement (lockedKeys : List KeyBlocker) (succeeds : Bool) :
    EsiOperation → CoordinatorReply × List KeyBlocker
  | .get _ => (.everythingOk, lockedKeys)
  | .set _ _ | .store _ => (if succeeds then .everythingOk else .illegalOperation, lockedKeys)

/-- A statement about a key that is locked for somebody else. -/
def blockedStatement (lockedKeys : List KeyBlocker) :
    EsiOperation → CoordinatorReply × List KeyBlocker
  | .get _ => (.youAreBlocked, lockedKeys)
  | .set _ _ | .store _ => (.illegalOperation, lockedKeys)

/-- A statement of the ESI on a socket as one step of the table of locked keys: what the
ESI is answered, and the table that is left. `succeeds` says whether an instance takes a SET
or STORE and does it. -/
def atomicStatement (lockedKeys : List KeyBlocker) (fd : ℤ) (operation : EsiOperation)
    (succeeds : Bool) : CoordinatorReply × List KeyBlocker :=
  if !esiCheckKeySize operation then (.illegalOperation, lockedKeys)
  else if !determineIfKeyIsBlocked operation.key lockedKeys then
    freeStatement lockedKeys fd operation
  else if ownsKey lockedKeys fd operation.key then ownedStatement lockedKeys succeeds operation
  else blockedStatement lockedKeys operation

/-- A statement as it was sent: the socket of its ESI, and the locked keys at that moment. -/
structure Statement where
  fd : ℤ
  operation : EsiOperation
  lockedKeys : List KeyBlocker

/-- A STORE that was answered with success has left the key to be unlocked. -/
def Statement.LeavesUnlock (statement : Statement) (planificador : PlanificadorState config) :
    Prop :=
  ∀ key, statement.operation = .store key →
    planificador.keyToUnlock = some key ∧ planificador.updateBlockedEsiQueueFlag = true

/-- What is known of a statement, by where it is. -/
def Statement.Known (statement : Statement) (planificador : PlanificadorState config)
    (answers : List (CoordinatorAnswer × Owners)) (orders : ℕ) : Phase → Prop
  | .sent operation =>
      operation = statement.operation ∧ planificador.gLockedKeys = statement.lockedKeys
  | .recvKeyState operation =>
      operation = statement.operation ∧ esiCheckKeySize operation = true ∧
        planificador.gLockedKeys = statement.lockedKeys
  | .recvBlockedByExecutingEsi operation =>
      operation = statement.operation ∧ esiCheckKeySize operation = true ∧
        planificador.gLockedKeys = statement.lockedKeys ∧
        ∀ answer ∈ answers, (answer.1 = .keyBlockedByExecutingEsi ↔
          ownsKey statement.lockedKeys statement.fd operation.key = true)
  | .blockKey operation =>
      operation = statement.operation ∧ esiCheckKeySize operation = true ∧
        (∃ key, operation = .get key) ∧
        determineIfKeyIsBlocked operation.key statement.lockedKeys = false ∧
        planificador.gLockedKeys =
          if answers.isEmpty then statement.lockedKeys
          else statement.lockedKeys ++ [⟨operation.key, statement.fd⟩]
  | .requested operation =>
      operation = statement.operation ∧ esiCheckKeySize operation = true ∧
        (∀ key, operation ≠ .get key) ∧ planificador.gLockedKeys = statement.lockedKeys ∧
        determineIfKeyIsBlocked operation.key statement.lockedKeys = true ∧
        ownsKey statement.lockedKeys statement.fd operation.key = true
  | .unblockKey operation =>
      operation = statement.operation ∧ esiCheckKeySize operation = true ∧
        planificador.gLockedKeys = statement.lockedKeys ∧
        determineIfKeyIsBlocked operation.key statement.lockedKeys = true ∧
        ownsKey statement.lockedKeys statement.fd operation.key = true ∧
        (answers ≠ [] → statement.LeavesUnlock planificador)
  | .replied reply =>
      (∃ succeeds, atomicStatement statement.lockedKeys statement.fd statement.operation succeeds =
        (reply, planificador.gLockedKeys)) ∧
        (reply = .everythingOk → statement.LeavesUnlock planificador)
  | .sendScriptEnd => True
  -- it is not told to execute before its result has been read
  | .waitForExecutionOrder => orders = 0

section Outcomes

variable {lockedKeys : List KeyBlocker} {fd : ℤ} {operation : EsiOperation} {succeeds : Bool}

theorem atomicStatement_of_long (hsize : ¬ esiCheckKeySize operation = true) :
    atomicStatement lockedKeys fd operation succeeds = (.illegalOperation, lockedKeys) := by
  simp only [atomicStatement, Bool.eq_false_iff.mpr hsize, Bool.not_false, if_true]

theorem atomicStatement_of_free (hsize : esiCheckKeySize operation = true)
    (hfree : determineIfKeyIsBlocked operation.key lockedKeys = false) :
    atomicStatement lockedKeys fd operation succeeds = freeStatement lockedKeys fd operation := by
  simp only [atomicStatement, hsize, hfree, Bool.not_true, Bool.not_false, Bool.false_eq_true,
    if_false, if_true]

theorem atomicStatement_of_owned (hsize : esiCheckKeySize operation = true)
    (hlocked : determineIfKeyIsBlocked operation.key lockedKeys = true)
    (howned : ownsKey lockedKeys fd operation.key = true) :
    atomicStatement lockedKeys fd operation succeeds =
      ownedStatement lockedKeys succeeds operation := by
  simp only [atomicStatement, hsize, hlocked, howned, Bool.not_true, Bool.false_eq_true, if_false,
    if_true]

theorem atomicStatement_of_notOwned (hsize : esiCheckKeySize operation = true)
    (hlocked : determineIfKeyIsBlocked operation.key lockedKeys = true)
    (howned : ¬ ownsKey lockedKeys fd operation.key = true) :
    atomicStatement lockedKeys fd operation succeeds = blockedStatement lockedKeys operation := by
  simp only [atomicStatement, hsize, hlocked, howned, Bool.not_true, Bool.false_eq_true, if_false]

end Outcomes

/-! ## The thread -/

section Thread

variable {statement : Statement} {planificador : PlanificadorState config}
variable {operation : EsiOperation} {answers : List (CoordinatorAnswer × Owners)} {orders : ℕ}

/-- The key is too long, or the scheduler is asked. -/
theorem Statement.known_askKeyState
    (hknown : statement.Known planificador answers orders (.sent operation)) :
    statement.Known planificador answers orders (askKeyState operation).1 := by
  obtain ⟨rfl, hkeys⟩ := hknown
  simp only [askKeyState]
  split
  · rename_i hsize
    exact ⟨rfl, hsize, hkeys⟩
  · rename_i hsize
    refine ⟨⟨true, ?_⟩, fun hreply => by cases hreply⟩
    rw [atomicStatement_of_long hsize, hkeys]

/-- The key is free. -/
theorem Statement.known_keyUnblocked
    (hknown : statement.Known planificador answers orders (.recvKeyState operation))
    (hfree : determineIfKeyIsBlocked operation.key planificador.gLockedKeys = false) :
    statement.Known planificador [] 0 (keyUnblocked operation).1 := by
  obtain ⟨hoperation, hsize, hkeys⟩ := hknown
  rw [hkeys] at hfree
  cases operation with
  | get key => exact ⟨hoperation, hsize, ⟨key, rfl⟩, hfree, hkeys⟩
  | set key value | store key =>
      refine ⟨⟨true, ?_⟩, fun hreply => by cases hreply⟩
      rw [← hoperation, atomicStatement_of_free hsize hfree, hkeys]
      rfl

/-- The ESI owns the key. -/
theorem Statement.known_keyBlockedByExecutingEsi
    (hknown : statement.Known planificador answers orders (.recvBlockedByExecutingEsi operation))
    {owners : Owners} (hanswer : (.keyBlockedByExecutingEsi, owners) ∈ answers)
    (hlocked : determineIfKeyIsBlocked operation.key planificador.gLockedKeys = true)
    (dispatched : Bool) :
    statement.Known planificador [] 0 (keyBlockedByExecutingEsi operation dispatched) := by
  obtain ⟨hoperation, hsize, hkeys, howner⟩ := hknown
  have howned := (howner _ hanswer).mp rfl
  rw [hkeys] at hlocked
  cases operation with
  | get key =>
      refine ⟨⟨true, ?_⟩, fun _ other hother => ?_⟩
      · rw [← hoperation, atomicStatement_of_owned hsize hlocked howned, hkeys]
        rfl
      · cases hoperation.trans hother
  | set key value | store key =>
      cases dispatched with
      | true =>
          refine ⟨hoperation, hsize, ?_, hkeys, hlocked, howned⟩
          intro other heq
          cases heq
      | false =>
          refine ⟨⟨false, ?_⟩, fun hreply => by cases hreply⟩
          rw [← hoperation, atomicStatement_of_owned hsize hlocked howned, hkeys]
          rfl

/-- Another ESI, or nobody, owns the key. -/
theorem Statement.known_keyBlocked
    (hknown : statement.Known planificador answers orders (.recvBlockedByExecutingEsi operation))
    {owners : Owners} (hanswer : (.keyNotBlockedByExecutingEsi, owners) ∈ answers)
    (hlocked : determineIfKeyIsBlocked operation.key planificador.gLockedKeys = true) :
    statement.Known planificador [] 0 (keyBlocked operation) := by
  obtain ⟨hoperation, hsize, hkeys, howner⟩ := hknown
  have howned : ¬ ownsKey statement.lockedKeys statement.fd operation.key = true := fun howned => by
    cases (howner _ hanswer).mpr howned
  rw [hkeys] at hlocked
  cases operation with
  | get key =>
      refine ⟨⟨true, ?_⟩, fun hreply => by cases hreply⟩
      rw [← hoperation, atomicStatement_of_notOwned hsize hlocked howned, hkeys]
      rfl
  | set key value | store key =>
      refine ⟨⟨true, ?_⟩, fun hreply => by cases hreply⟩
      rw [← hoperation, atomicStatement_of_notOwned hsize hlocked howned, hkeys]
      rfl

/-- An instance has handled the request. -/
theorem Statement.known_handleRequest {succeeds : Bool}
    {outcome : Phase × List CoordinatorMessage}
    (hknown : statement.Known planificador answers orders (.requested operation))
    (hhandle : handleRequest operation succeeds = some outcome) :
    statement.Known planificador [] 0 outcome.1 := by
  obtain ⟨hoperation, hsize, -, hkeys, hlocked, howned⟩ := hknown
  cases operation with
  | get key => cases hhandle
  | set key value =>
      obtain rfl := Option.some.inj hhandle
      refine ⟨⟨succeeds, ?_⟩, fun _ other hother => ?_⟩
      · rw [← hoperation, atomicStatement_of_owned hsize hlocked howned, hkeys]
        rfl
      · cases hoperation.trans hother
  | store key =>
      obtain rfl := Option.some.inj hhandle
      cases succeeds with
      | true => exact ⟨hoperation, hsize, hkeys, hlocked, howned, fun hnone => absurd rfl hnone⟩
      | false =>
          refine ⟨⟨false, ?_⟩, fun hreply => by cases hreply⟩
          rw [← hoperation, atomicStatement_of_owned hsize hlocked howned, hkeys]
          rfl

/-- The key has been locked. -/
theorem Statement.known_blocked
    (hknown : statement.Known planificador answers orders (.blockKey operation))
    (hanswer : answers ≠ []) :
    statement.Known planificador [] 0 (.replied .everythingOk) := by
  obtain ⟨hoperation, hsize, ⟨key, rfl⟩, hfree, hkeys⟩ := hknown
  rw [List.isEmpty_eq_false_iff.mpr hanswer, if_neg (by simp)] at hkeys
  refine ⟨⟨true, ?_⟩, fun _ other hother => ?_⟩
  · rw [← hoperation, atomicStatement_of_free hsize hfree, hkeys]
    rfl
  · cases hoperation.trans hother

/-- The key will be unlocked. -/
theorem Statement.known_unblocked {key : CString}
    (hknown : statement.Known planificador answers orders (.unblockKey (.store key)))
    (hanswer : answers ≠ []) :
    statement.Known planificador [] 0 (.replied .everythingOk) := by
  obtain ⟨hoperation, hsize, hkeys, hlocked, howned, hleaves⟩ := hknown
  refine ⟨⟨true, ?_⟩, fun _ => hleaves hanswer⟩
  rw [← hoperation, atomicStatement_of_owned hsize hlocked howned, hkeys]
  rfl

end Thread

theorem determineIfKeyIsBlocked_eq_false {state : PlanificadorState config} {key : CString}
    (hfree : key ∉ state.gLockedKeys.map KeyBlocker.key) :
    determineIfKeyIsBlocked key state.gLockedKeys = false :=
  Bool.eq_false_iff.mpr fun hlocked => hfree (mem_keys_of_determineIfKeyIsBlocked.mp hlocked)

/-- **The thread of the engaged ESI** goes on as the statement says. -/
theorem Statement.known_thread {statement : Statement} {succeeds : Bool}
    (hget : sistema.esis[who]? = some esi) (hengaged : Engaged sistema who esi)
    (hknown : statement.Known sistema.planificador sistema.toCoordinador esi.orders esi.phase)
    (hthread : sistema.thread who succeeds = some next) :
    ∃ phase, next.esis = sistema.esis.set who { esi with phase := phase } ∧
      statement.Known next.planificador next.toCoordinador esi.orders phase := by
  obtain hexchange | ⟨⟨-, hidle, -⟩, -⟩ := hengaged
  swap
  · rw [thread_eq_none succeeds hget hidle] at hthread
    cases hthread
  obtain ⟨fd, lines, phase, orders, results, alive, connected⟩ := esi
  simp only [SistemaState.thread, hget, Option.bind_eq_bind, Option.bind_some] at hthread
  cases hexchange with
  | sent hphase horders hresults hline hsilent =>
      obtain rfl : phase = _ := hphase
      obtain rfl := Option.some.inj hthread
      exact ⟨_, rfl, Statement.known_askKeyState hknown⟩
  | requested hphase horders hresults hline hsilent =>
      obtain rfl : phase = _ := hphase
      obtain rfl : orders = 0 := horders
      obtain ⟨outcome, hhandle, rfl⟩ := Option.map_eq_some_iff.mp hthread
      refine ⟨_, rfl, ?_⟩
      show statement.Known sistema.planificador sistema.toCoordinador 0 outcome.1
      rw [hsilent.2]
      exact Statement.known_handleRequest hknown hhandle
  | unblocked hphase horders hresults hline hinquired hinquirer hfree hanswered =>
      obtain rfl : phase = _ := hphase
      obtain rfl : orders = 0 := horders
      obtain ⟨-, hrecv⟩ := Option.ite_none_right_eq_some.mp hthread
      simp only [SistemaState.recvAnswer, hanswered.2] at hrecv
      obtain rfl := Option.some.inj hrecv
      exact ⟨_, rfl, Statement.known_keyUnblocked hknown (determineIfKeyIsBlocked_eq_false hfree)⟩
  | blocked hphase horders hresults hline hinquired hlocked hanswered =>
      obtain rfl : phase = _ := hphase
      obtain rfl : orders = 0 := horders
      obtain ⟨-, hrecv⟩ := Option.ite_none_right_eq_some.mp hthread
      simp only [SistemaState.recvAnswer, hanswered.2] at hrecv
      obtain rfl := Option.some.inj hrecv
      obtain ⟨hoperation, hsize, hkeys⟩ := hknown
      exact ⟨_, rfl, hoperation, hsize, hkeys, fun answer hmem => absurd hmem List.not_mem_nil⟩
  | @owned operation owners hphase horders hresults hline hlocked hallows hanswered =>
      obtain rfl : phase = _ := hphase
      obtain rfl : orders = 0 := horders
      have hmem : (.keyBlockedByExecutingEsi, owners) ∈ sistema.toCoordinador := by
        rw [hanswered.2]
        exact List.mem_singleton_self _
      obtain ⟨-, hrecv⟩ := Option.ite_none_right_eq_some.mp hthread
      simp only [SistemaState.recvAnswer, hanswered.2] at hrecv
      obtain rfl := Option.some.inj hrecv
      exact ⟨_, rfl, Statement.known_keyBlockedByExecutingEsi hknown hmem
        (mem_keys_of_determineIfKeyIsBlocked.mpr hlocked) succeeds⟩
  | @notOwned operation owners hphase horders hresults hline hinquired hlocked hanswered =>
      obtain rfl : phase = _ := hphase
      obtain rfl : orders = 0 := horders
      have hmem : (.keyNotBlockedByExecutingEsi, owners) ∈ sistema.toCoordinador := by
        rw [hanswered.2]
        exact List.mem_singleton_self _
      obtain ⟨-, hrecv⟩ := Option.ite_none_right_eq_some.mp hthread
      simp only [SistemaState.recvAnswer, hanswered.2] at hrecv
      obtain rfl := Option.some.inj hrecv
      exact ⟨_, rfl, Statement.known_keyBlocked hknown hmem
        (mem_keys_of_determineIfKeyIsBlocked.mpr hlocked)⟩
  | blockedSuccesfully hphase horders hresults hline hlocked hanswered =>
      obtain rfl : phase = _ := hphase
      obtain rfl : orders = 0 := horders
      obtain ⟨-, hrecv⟩ := Option.ite_none_right_eq_some.mp hthread
      simp only [SistemaState.recvAnswer, hanswered.2] at hrecv
      obtain rfl := Option.some.inj hrecv
      refine ⟨_, rfl, Statement.known_blocked hknown ?_⟩
      rw [hanswered.2]
      exact List.cons_ne_nil _ _
  | unlockedSuccesfully hphase horders hresults hline hanswered =>
      obtain rfl : phase = _ := hphase
      obtain rfl : orders = 0 := horders
      obtain ⟨-, hrecv⟩ := Option.ite_none_right_eq_some.mp hthread
      simp only [SistemaState.recvAnswer, hanswered.2] at hrecv
      obtain rfl := Option.some.inj hrecv
      refine ⟨_, rfl, Statement.known_unblocked hknown ?_⟩
      rw [hanswered.2]
      exact List.cons_ne_nil _ _
  | inquiring hphase _ _ _ hasking | inquiringOwner hphase _ _ _ _ _ hasking
  | blocking hphase _ _ _ _ _ _ hasking | unblocking hphase _ _ _ hasking =>
      -- the answer has not come
      obtain rfl : phase = _ := hphase
      obtain ⟨-, hrecv⟩ := Option.ite_none_right_eq_some.mp hthread
      simp only [SistemaState.recvAnswer, hasking.2] at hrecv
      cases hrecv
  | ordered hphase | everythingOk hphase | youAreBlocked hphase | illegal hphase
  | scriptEnd hphase | succeeded hphase | reportedBlocked hphase =>
      -- the thread has nothing to do
      obtain rfl : phase = _ := hphase
      have hnone := thread_eq_none succeeds hget rfl
      rw [SistemaState.thread, hget] at hnone
      exact absurd (hthread.symm.trans hnone) (by simp)

/-! ## The scheduler -/

/-- **The scheduler takes a message** about the statement. -/
theorem Statement.known_coordinatorMessage {statement : Statement}
    (hfd : esi.fd = statement.fd)
    (hexecution : sistema.planificador.gExecutionQueue = [esi.fd])
    (hengaged : Engaged sistema who esi)
    (hknown : statement.Known sistema.planificador sistema.toCoordinador esi.orders esi.phase)
    (hmessage : sistema.coordinatorMessage = some next) :
    statement.Known next.planificador next.toCoordinador esi.orders esi.phase := by
  obtain ⟨message, sender, rest, planificador, answer, hmessages, hbranch, rfl⟩ :=
    of_coordinatorMessage hmessage
  have hsilent : ¬ sistema.toPlanificador = [] := fun hnone => by
    rw [hnone] at hmessages
    cases hmessages
  obtain hexchange | ⟨-, hnone, -⟩ := hengaged
  swap
  · exact absurd hnone hsilent
  cases hexchange with
  | inquiring hphase horders hresults hline hasking =>
      obtain ⟨hasked, hanswers⟩ := hasking
      cases hasked.symm.trans hmessages
      obtain ⟨entered, hwait, hanswer⟩ := Option.bind_eq_some_iff.mp hbranch
      obtain ⟨count, rfl⟩ := of_semWait hwait
      rw [hphase] at hknown ⊢
      dsimp only at hanswer
      split at hanswer
      · obtain ⟨rfl, rfl⟩ := Prod.mk.inj (Option.some.inj hanswer)
        exact hknown
      · obtain ⟨rfl, rfl⟩ := Prod.mk.inj (Option.some.inj hanswer)
        exact hknown
  | inquiringOwner hphase horders hresults hline hinquired hlocked hasking =>
      obtain ⟨hasked, hanswers⟩ := hasking
      cases hasked.symm.trans hmessages
      rw [hphase] at hknown ⊢
      obtain ⟨hoperation, hsize, hkeys, -⟩ := hknown
      obtain ⟨key, hkey, hanswer⟩ := Option.bind_eq_some_iff.mp hbranch
      obtain rfl := Option.some.inj (hinquired.symm.trans hkey)
      obtain ⟨response, hresponse, hanswer⟩ := Option.bind_eq_some_iff.mp hanswer
      simp only [keyIsBlockedByExecutingEsi, hexecution, hkeys, hfd, Option.some.injEq] at hresponse
      split at hanswer
      · rename_i howner
        obtain ⟨rfl, rfl⟩ := Prod.mk.inj (Option.some.inj hanswer)
        refine ⟨hoperation, hsize, hkeys, fun answer hmem => ?_⟩
        rw [hanswers] at hmem
        rw [List.mem_singleton.mp hmem]
        exact ⟨fun _ => hresponse.trans howner, fun _ => rfl⟩
      · rename_i howner
        obtain ⟨rfl, rfl⟩ := Prod.mk.inj (Option.some.inj hanswer)
        refine ⟨hoperation, hsize, hkeys, fun answer hmem => ?_⟩
        rw [hanswers] at hmem
        rw [List.mem_singleton.mp hmem]
        refine ⟨fun heq => ?_, fun howned => absurd (hresponse.symm.trans howned) howner⟩
        cases heq
  | @blocking operation hphase horders hresults hline hinquired hinquirer hfree hasking =>
      obtain ⟨hasked, hanswers⟩ := hasking
      cases hasked.symm.trans hmessages
      rw [hphase] at hknown ⊢
      obtain ⟨hoperation, hsize, hget, hunlocked, hkeys⟩ := hknown
      obtain ⟨entered, hwait, hanswer⟩ := Option.bind_eq_some_iff.mp hbranch
      obtain ⟨count, rfl⟩ := of_semWait hwait
      obtain ⟨key, hkey, hanswer⟩ := Option.bind_eq_some_iff.mp hanswer
      obtain rfl := Option.some.inj (hinquired.symm.trans hkey)
      simp only [addNewKeyBlocker, hexecution, Option.bind_eq_bind, Option.bind_some] at hanswer
      obtain ⟨rfl, rfl⟩ := Prod.mk.inj (Option.some.inj hanswer)
      refine ⟨hoperation, hsize, hget, hunlocked, ?_⟩
      rw [hanswers, List.isEmpty_nil, if_pos rfl] at hkeys
      rw [hanswers, ← hkeys, ← hfd]
      rfl
  | unblocking hphase horders hresults hline hasking =>
      obtain ⟨hasked, hanswers⟩ := hasking
      cases hasked.symm.trans hmessages
      rw [hphase] at hknown ⊢
      obtain ⟨hoperation, hsize, hkeys, hlocked, howned, -⟩ := hknown
      obtain ⟨entered, hwait, hanswer⟩ := Option.bind_eq_some_iff.mp hbranch
      obtain ⟨count, rfl⟩ := of_semWait hwait
      obtain ⟨rfl, rfl⟩ := Prod.mk.inj (Option.some.inj hanswer)
      refine ⟨hoperation, hsize, hkeys, hlocked, howned, fun _ key hstore => ?_⟩
      cases hoperation.trans hstore
      exact ⟨rfl, rfl⟩
  | ordered _ _ _ hquiet | sent _ _ _ _ hquiet | requested _ _ _ _ hquiet
  | everythingOk _ _ _ _ hquiet | youAreBlocked _ _ _ _ _ _ hquiet | illegal _ _ _ hquiet
  | scriptEnd _ _ _ hquiet | succeeded _ _ _ hquiet | reportedBlocked _ _ _ _ _ _ hquiet =>
      exact absurd hquiet.1 hsilent
  | unblocked _ _ _ _ _ _ _ hanswered | blocked _ _ _ _ _ _ hanswered
  | owned _ _ _ _ _ _ hanswered | notOwned _ _ _ _ _ _ hanswered
  | blockedSuccesfully _ _ _ _ _ hanswered | unlockedSuccesfully _ _ _ _ hanswered =>
      exact absurd hanswered.1 hsilent

/-! ## Everything else -/

/-- The executing ESI is engaged, if it is busy or the coordinator has sent something. -/
theorem SistemaInvariant.engaged (hinv : SistemaInvariant sistema)
    (hget : sistema.esis[who]? = some esi) (hconnected : esi.connected = true)
    (hexecution : sistema.planificador.gExecutionQueue = [esi.fd])
    (hbusy : ¬ esi.Quiet ∨ sistema.toPlanificador ≠ []) : Engaged sistema who esi := by
  cases hinv.conversation with
  | idle hquiet hsilent =>
      obtain hbusy | hsent := hbusy
      · exact absurd (hquiet esi (List.mem_of_getElem? hget)) hbusy
      · exact absurd hsilent.1 hsent
  | engaged hgetEngaged hopen hexecuting hengaged _ =>
      have hfd := (List.cons.inj (hexecution.symm.trans hexecuting)).1
      obtain rfl := hinv.sockets.unique _ _ _ _ hget hgetEngaged hconnected hopen hfd
      obtain rfl := Option.some.inj (hget.symm.trans hgetEngaged)
      exact hengaged

/-- **The ESI goes on**: it reads the answer, and reports the result. -/
theorem Statement.known_run {statement : Statement} {after : Esi}
    (hengaged : Engaged sistema who esi)
    (hknown : statement.Known sistema.planificador sistema.toCoordinador esi.orders esi.phase)
    (hrun : esi.run = some after) :
    statement.Known sistema.planificador sistema.toCoordinador after.orders after.phase := by
  obtain hexchange | ⟨hgone, -⟩ := hengaged
  swap
  · rw [Esi.Quiet.run (.inr hgone)] at hrun
    cases hrun
  obtain ⟨fd, lines, phase, orders, results, alive, connected⟩ := esi
  simp only [Esi.run] at hrun
  split at hrun
  swap
  · cases hrun
  cases hexchange with
  | ordered hphase horders =>
      obtain rfl : phase = _ := hphase
      obtain rfl : orders = 1 := horders
      exact absurd hknown Nat.one_ne_zero
  | everythingOk hphase | scriptEnd hphase horders | youAreBlocked hphase horders
  | illegal hphase =>
      obtain rfl : phase = _ := hphase
      obtain rfl := Option.some.inj hrun
      first | exact trivial | exact horders | exact hknown
  | succeeded hphase horders | reportedBlocked hphase horders =>
      obtain rfl : phase = _ := hphase
      obtain rfl : orders = 0 := horders
      cases lines <;> cases hrun
  | sent hphase | inquiring hphase | unblocked hphase | blocked hphase | inquiringOwner hphase
  | owned hphase | notOwned hphase | blocking hphase | blockedSuccesfully hphase
  | requested hphase | unblocking hphase | unlockedSuccesfully hphase =>
      obtain rfl : phase = _ := hphase
      cases hrun

/-- A new client does not unlock a key. -/
theorem unlock_newClient {state planificador : PlanificadorState config} {fd : ℤ} {handshake : Bool}
    (hmain : mainStep config state (.newClient fd handshake) = some planificador) :
    planificador.keyToUnlock = state.keyToUnlock ∧
      planificador.updateBlockedEsiQueueFlag = state.updateBlockedEsiQueueFlag := by
  replace hmain : newClient state fd handshake = some planificador := hmain
  simp only [newClient] at hmain
  split at hmain
  · cases hmain
  · rw [← Option.some.inj hmain]
    cases handshake <;> exact ⟨rfl, rfl⟩

/-- The ESI of a statement that is in flight is engaged. -/
theorem SistemaInvariant.engaged_of_inFlight (hinv : SistemaInvariant sistema)
    (hget : sistema.esis[who]? = some esi) (hinFlight : esi.phase.inFlight = true) :
    esi.connected = true ∧ sistema.planificador.gExecutionQueue = [esi.fd] ∧
      Engaged sistema who esi ∧
        ∀ (other : ℕ) (esi' : Esi), other ≠ who → sistema.esis[other]? = some esi' →
          esi'.Quiet := by
  have hbusy : ¬ esi.Quiet := fun hquiet =>
    absurd (hquiet.inFlight.symm.trans hinFlight) Bool.false_ne_true
  cases hinv.conversation with
  | idle hquiet _ => exact absurd (hquiet esi (List.mem_of_getElem? hget)) hbusy
  | @engaged engaged _ hgetEngaged hconnected hexecution hengaged hothers =>
      obtain rfl : who = engaged := by
        by_contra hne
        exact hbusy (hothers who esi hne hget)
      obtain rfl := Option.some.inj (hget.symm.trans hgetEngaged)
      exact ⟨hconnected, hexecution, hengaged, hothers⟩

/-- Only the thread of the engaged ESI goes on. -/
theorem SistemaInvariant.engaged_of_thread (hinv : SistemaInvariant sistema) {succeeds : Bool}
    (hthread : sistema.thread who succeeds = some next) :
    ∃ esi, sistema.esis[who]? = some esi ∧ esi.connected = true ∧
      sistema.planificador.gExecutionQueue = [esi.fd] ∧ Engaged sistema who esi := by
  obtain ⟨esi, hget, -⟩ := Option.bind_eq_some_iff.mp hthread
  have hinFlight : esi.phase.inFlight = true := by
    by_contra hidle
    have hnone := thread_eq_none succeeds hget (Bool.eq_false_iff.mpr hidle)
    exact absurd (hthread.symm.trans hnone) (by simp)
  obtain ⟨hconnected, hexecution, hengaged, -⟩ := hinv.engaged_of_inFlight hget hinFlight
  exact ⟨esi, hget, hconnected, hexecution, hengaged⟩

/-- A statement of an ESI is under way, and the scheduler executes the ESI. -/
structure Follows (statement : Statement) (who : ℕ) (sistema : SistemaState config) : Prop where
  inv : SistemaInvariant sistema
  executing : sistema.planificador.gExecutionQueue = [statement.fd]
  esi : ∃ esi, sistema.esis[who]? = some esi ∧ esi.connected = true ∧ esi.fd = statement.fd ∧
    statement.Known sistema.planificador sistema.toCoordinador esi.orders esi.phase

/-- The scheduler reads from the executing ESI. -/
def readsResult : Action → Bool
  | .executingEsi _ _ _ _ => true
  | _ => false

/-- What is known does not depend on the rest of the scheduler. -/
theorem Statement.Known.congr {statement : Statement}
    {planificador after : PlanificadorState config}
    {answers : List (CoordinatorAnswer × Owners)} {orders : ℕ} {phase : Phase}
    (hknown : statement.Known planificador answers orders phase)
    (hkeys : after.gLockedKeys = planificador.gLockedKeys)
    (hunlock : after.keyToUnlock = planificador.keyToUnlock)
    (hflag : after.updateBlockedEsiQueueFlag = planificador.updateBlockedEsiQueueFlag) :
    statement.Known after answers orders phase := by
  cases phase <;>
    simp only [Statement.Known, Statement.LeavesUnlock, hkeys, hunlock, hflag] at hknown ⊢ <;>
    exact hknown

namespace Follows

variable {statement : Statement}

/-- **The step lemma.** -/
theorem step (h : Follows statement who sistema) {action : Action}
    (hpace : keepsPace sistema action = true) (hunread : readsResult action = false)
    (hstep : Sistema.step config sistema action = some next) : Follows statement who next := by
  have hnext := h.inv.step hpace hstep
  obtain ⟨hinv, hexecuting, esi, hget, hconnected, hfd, hknown⟩ := h
  have hexecution : sistema.planificador.gExecutionQueue = [esi.fd] := by rw [hexecuting, hfd]
  have hlt := (List.getElem?_eq_some_iff.mp hget).1
  cases action with
  | connect fd handshake lines =>
      obtain ⟨planificador, hmain, hrest⟩ := Option.bind_eq_some_iff.mp hstep
      have hadmission := admission_newClient hmain
      obtain ⟨hunlock, hflag⟩ := unlock_newClient hmain
      have hheard : (sistema.afterPlanificador planificador).esis = sistema.esis := by
        rw [SistemaState.afterPlanificador, hadmission.orders, List.drop_length]
        refine map_hear_nil fun other hmem hopen => ?_
        have hstill := hinv.sockets.opened other hmem hopen
        rw [hadmission.connectedFds]
        split
        · exact List.mem_append_left _ hstill
        · exact hstill
      dsimp only at hrest
      rw [hheard] at hrest
      rw [← Option.some.inj hrest] at hnext ⊢
      refine ⟨hnext, hadmission.gExecutionQueue.trans hexecuting, esi, ?_, hconnected, hfd,
        hknown.congr hadmission.gLockedKeys hunlock hflag⟩
      exact (List.getElem?_append_left hlt).trans hget
  | coordinatorMessage =>
      obtain ⟨message, sender, rest, planificador, answer, hmessages, hbranch, heq⟩ :=
        of_coordinatorMessage hstep
      have hengaged := hinv.engaged hget hconnected hexecution
        (.inr (by rw [hmessages]; exact List.cons_ne_nil _ _))
      have hafter := Statement.known_coordinatorMessage hfd hexecution hengaged hknown hstep
      obtain ⟨_, _, _, _, _, hsame⟩ := of_coordinatorBranch hbranch
      refine ⟨hnext, ?_, esi, ?_, hconnected, hfd, hafter⟩
      · rw [heq]
        show planificador.gExecutionQueue = _
        rw [hsame]
        exact hexecuting
      · rw [heq]
        exact hget
  | executingEsi garbage scriptGarbage meanwhile unreachable => cases hunread
  | endOfTurn unreachable =>
      obtain ⟨planificador, hmain, rfl⟩ := Option.map_eq_some_iff.mp hstep
      obtain rfl | ⟨hnone, -⟩ :=
        chosen_endOfTurn hinv.one (Bool.and_eq_true_iff.mp hpace).1 hmain
      · rw [hinv.afterPlanificador_eq rfl rfl] at hnext ⊢
        exact ⟨hnext, hexecuting, esi, hget, hconnected, hfd, hknown⟩
      · rw [hnone] at hexecuting
        cases hexecuting
  | console command =>
      obtain rfl := Option.some.inj hstep
      obtain ⟨_, _, _, _, _, _, _, heq⟩ := executeCommand_eq sistema.planificador command
      rw [hinv.afterPlanificador_eq (by rw [heq]) (by rw [heq])] at hnext ⊢
      refine ⟨hnext, ?_, esi, hget, hconnected, hfd, ?_⟩
      · show (executeCommand sistema.planificador command).gExecutionQueue = _
        rw [heq]
        exact hexecuting
      · exact hknown.congr (by rw [heq]) (by rw [heq]) (by rw [heq])
  | esi other =>
      obtain ⟨changed, hother, hrest⟩ := Option.bind_eq_some_iff.mp hstep
      obtain ⟨after, hrun, hrest⟩ := Option.bind_eq_some_iff.mp hrest
      obtain rfl := Option.some.inj hrest
      by_cases heq : other = who
      · subst heq
        obtain rfl := Option.some.inj (hother.symm.trans hget)
        have hsame := Esi.connection_of_run hrun
        refine ⟨hnext, hexecuting, after, List.getElem?_set_self hlt, hsame.2.trans hconnected,
          hsame.1.trans hfd, ?_⟩
        have hbusy : ¬ changed.Quiet := fun hquiet => by
          rw [hquiet.run] at hrun
          cases hrun
        exact Statement.known_run (hinv.engaged hget hconnected hexecution (.inl hbusy)) hknown hrun
      · exact ⟨hnext, hexecuting, esi, (List.getElem?_set_ne heq).trans hget, hconnected, hfd,
          hknown⟩
  | die other =>
      obtain ⟨changed, hother, hrest⟩ := Option.bind_eq_some_iff.mp hstep
      obtain rfl := Option.some.inj hrest
      by_cases heq : other = who
      · subst heq
        obtain rfl := Option.some.inj (hother.symm.trans hget)
        exact ⟨hnext, hexecuting, _, List.getElem?_set_self hlt, hconnected, hfd, hknown⟩
      · exact ⟨hnext, hexecuting, esi, (List.getElem?_set_ne heq).trans hget, hconnected, hfd,
          hknown⟩
  | thread other succeeds =>
      have hplanificador := planificador_of_thread hstep
      obtain ⟨changed, hother, hopen, hexecution', hengaged⟩ := hinv.engaged_of_thread hstep
      have hsocket := (List.cons.inj (hexecution.symm.trans hexecution')).1
      obtain rfl := hinv.sockets.unique _ _ _ _ hget hother hconnected hopen hsocket
      obtain rfl := Option.some.inj (hother.symm.trans hget)
      obtain ⟨phase, hesis, hafter⟩ := Statement.known_thread hget hengaged hknown hstep
      refine ⟨hnext, hplanificador ▸ hexecuting, { changed with phase := phase }, ?_, hconnected,
        hfd,
        hafter⟩
      rw [hesis]
      exact List.getElem?_set_self hlt

/-- **The run lemma**: the statement is followed until its result is read. -/
theorem of_runs (h : Follows statement who sistema) {actions : List Action}
    (hrun : (Sistema.step config).Runs
      (fun sistema action => keepsPace sistema action = true ∧ readsResult action = false)
      sistema actions next) : Follows statement who next :=
  hrun.invariant (Follows statement who)
    (fun h hguard hstep => h.step hguard.1 hguard.2 hstep) h

end Follows

/-- A statement that was sent is followed. -/
theorem SistemaInvariant.follows (hinv : SistemaInvariant sistema)
    (hget : sistema.esis[who]? = some esi) {operation : EsiOperation}
    (hsent : esi.phase = .sent operation) :
    Follows ⟨esi.fd, operation, sistema.planificador.gLockedKeys⟩ who sistema := by
  obtain ⟨hconnected, hexecution, -, -⟩ := hinv.engaged_of_inFlight hget (by rw [hsent]; rfl)
  refine ⟨hinv, hexecution, esi, hget, hconnected, rfl, ?_⟩
  rw [hsent]
  exact ⟨rfl, rfl⟩

/-! ## Statements -/

/-- An ESI with a GET of a key. -/
def getKeyK (phase : Phase) : Esi := ⟨10, [.get keyK], phase, 0, [], true, true⟩

end SockMyPort.Sistema
