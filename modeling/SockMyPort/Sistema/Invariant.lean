/-
# What every step of the system keeps

A step keeps the invariant when the scheduler chooses well and does not find an ESI
lost while the coordinator is busy with its operation: then the head of the
execution queue is the ESI whose statement is under way.
-/

import SockMyPort.Sistema.Conversation

namespace SockMyPort.Sistema

open SockMyPort.Commons SockMyPort.Planificador Library

variable {config : Config} {sistema next : SistemaState config} {who : ℕ} {esi : Esi}

/-! ## The condition -/

/-- The event of the scheduler that a step is. -/
def schedulerEvent (sistema : SistemaState config) : Action → Option Event
  | .connect fd handshake _ => some (.newClient fd handshake)
  | .coordinatorMessage => sistema.toPlanificador.head?.map fun sent => .coordinator sent.1
  | .executingEsi garbage scriptGarbage meanwhile unreachable => do
      let who ← processOn sistema.esis sistema.planificador.executingEsi
      let esi ← sistema.esis[who]?
      let (result, scriptEnd, _) ← esi.recvResult garbage scriptGarbage
      some (.executingEsi result scriptEnd meanwhile unreachable)
  | .endOfTurn unreachable => some (.endOfTurn unreachable)
  | .console command => some (.console command)
  | .esi _ | .die _ | .thread _ _ => none

/-- The scheduler does not find an ESI lost while the coordinator is busy with its
operation. -/
def losesNoneInFlight (sistema : SistemaState config) : Action → Bool
  | .executingEsi _ _ _ _ =>
      (processOn sistema.esis sistema.planificador.executingEsi).all fun who =>
        sistema.esis[who]?.all fun esi => esi.alive || !esi.phase.inFlight
  | _ => true

/-- The scheduler chooses well and loses no ESI in flight. -/
def keepsPace (sistema : SistemaState config) (action : Action) : Bool :=
  (schedulerEvent sistema action).all (choosesWell sistema.planificador) &&
    losesNoneInFlight sistema action

/-- What the scheduler does with the first message of the coordinator. -/
theorem of_coordinatorMessage (hmessage : sistema.coordinatorMessage = some next) :
    ∃ message sender rest planificador answer,
      sistema.toPlanificador = (message, sender) :: rest ∧
        coordinatorBranch sistema.planificador message = some (planificador, answer) ∧
          next = { sistema with
            planificador := planificador
            toPlanificador := rest
            toCoordinador := sistema.toCoordinador ++ answer.toList.map fun answer =>
              (answer, ownersOf sistema.esis planificador.gLockedKeys)
            inquirer := sistema.inquirerAfter message sender
            blockedKeys := sistema.blockedKeys ++
              (planificador.gLockedKeys.drop sistema.planificador.gLockedKeys.length).map
                fun blocker => ⟨blocker.key, processOn sistema.esis blocker.esiId,
                  sistema.inquirer⟩ } := by
  rw [SistemaState.coordinatorMessage] at hmessage
  split at hmessage
  · cases hmessage
  · rename_i message sender rest hmessages
    obtain ⟨⟨planificador, answer⟩, hbranch, hnext⟩ := Option.bind_eq_some_iff.mp hmessage
    exact ⟨message, sender, rest, planificador, answer, hmessages, hbranch,
      (Option.some.inj hnext).symm⟩

/-- **Every run of the system is a run of the scheduler.** -/
theorem mainStep_of_step {action : Action} (hstep : step config sistema action = some next) :
    match schedulerEvent sistema action with
    | some event => mainStep config sistema.planificador event = some next.planificador
    | none => next.planificador = sistema.planificador := by
  cases action with
  | connect fd handshake lines =>
      obtain ⟨planificador, hmain, hrest⟩ := Option.bind_eq_some_iff.mp hstep
      rw [← Option.some.inj hrest]
      exact hmain
  | coordinatorMessage =>
      obtain ⟨message, sender, rest, planificador, answer, hmessages, hbranch, rfl⟩ :=
        of_coordinatorMessage hstep
      simp only [schedulerEvent, hmessages, List.head?_cons, Option.map_some]
      exact Option.map_eq_some_iff.mpr ⟨_, hbranch, rfl⟩
  | executingEsi garbage scriptGarbage meanwhile unreachable =>
      obtain ⟨who, hwho, hrest⟩ := Option.bind_eq_some_iff.mp hstep
      obtain ⟨esi, hget, hrest⟩ := Option.bind_eq_some_iff.mp hrest
      obtain ⟨⟨result, scriptEnd, read⟩, hrecv, hrest⟩ := Option.bind_eq_some_iff.mp hrest
      obtain ⟨planificador, hmain, hrest⟩ := Option.bind_eq_some_iff.mp hrest
      rw [← Option.some.inj hrest]
      simp only [schedulerEvent, hwho, hget, hrecv, Option.bind_eq_bind, Option.bind_some]
      exact hmain
  | endOfTurn unreachable =>
      obtain ⟨planificador, hmain, rfl⟩ := Option.map_eq_some_iff.mp hstep
      exact hmain
  | console command =>
      obtain rfl := Option.some.inj hstep
      rfl
  | esi who =>
      obtain ⟨esi, hget, hrest⟩ := Option.bind_eq_some_iff.mp hstep
      obtain ⟨changed, hrun, hrest⟩ := Option.bind_eq_some_iff.mp hrest
      rw [← Option.some.inj hrest]
      rfl
  | die who =>
      obtain ⟨esi, hget, hrest⟩ := Option.bind_eq_some_iff.mp hstep
      rw [← Option.some.inj hrest]
      rfl
  | thread who succeeds => exact planificador_of_thread hstep

/-! ## The invariant -/

/-- The invariant of the system. -/
structure SistemaInvariant (sistema : SistemaState config) : Prop where
  one : OneExecuting sistema.planificador
  known : ∀ fd ∈ sistema.planificador.outstanding, fd ∈ sistema.planificador.ids
  genuine : sistema.planificador.dispatcher.Genuine (-1)
  owned : sistema.planificador.dispatcher.Owned (-1)
  sockets : Sockets sistema.planificador.connectedFds sistema.esis
  conversation : Conversation sistema
  allowed : ∀ request ∈ sistema.requests,
    Allows request.operation.key request.sender request.owners
  attributed : ∀ blocked ∈ sistema.blockedKeys,
    ∃ who, blocked.owner = some who ∧ blocked.inquirer = some who

/-! ## The scheduler answers the coordinator -/

/-- What the scheduler does with a message about the engaged ESI. -/
structure MessageStep (sistema next : SistemaState config) (who : ℕ) (esi : Esi) : Prop where
  branch : ∃ message answer, sistema.toPlanificador.head? = some (message, who) ∧
    coordinatorBranch sistema.planificador message = some (next.planificador, answer) ∧
      BlocksFree sistema.planificador (.coordinator message)
  esis : next.esis = sistema.esis
  engaged : Engaged next who esi
  requests : next.requests = sistema.requests
  blockedKeys : next.blockedKeys = sistema.blockedKeys ∨
    ∃ key, next.blockedKeys = sistema.blockedKeys ++ [⟨key, some who, some who⟩]

/-- The executing ESI owns the key that it was asked about. -/
theorem SistemaInvariant.allows (hinv : SistemaInvariant sistema)
    (hget : sistema.esis[who]? = some esi) (hconnected : esi.connected = true)
    (hexecution : sistema.planificador.gExecutionQueue = [esi.fd]) {key : CString}
    (howner : keyIsBlockedByExecutingEsi sistema.planificador key = some true) :
    Allows key who (ownersOf sistema.esis sistema.planificador.gLockedKeys) := by
  simp only [keyIsBlockedByExecutingEsi, hexecution, Option.some.injEq, List.any_eq_true,
    Bool.and_eq_true, decide_eq_true_eq] at howner
  obtain ⟨blocker, hmem, rfl, hfd⟩ := howner
  have hreal : blocker.esiId ≠ -1 := fun heq => hinv.genuine.queues (by
    refine Multiset.mem_add.mpr (.inr (Multiset.mem_coe.mpr ?_))
    rw [hexecution, ← hfd, heq]
    exact List.mem_singleton_self _)
  obtain hsystem | ⟨-, honly⟩ := hinv.owned blocker.hold (List.mem_map_of_mem hmem)
  · exact absurd hsystem hreal
  have hfilter : (sistema.planificador.gLockedKeys.filter fun other =>
      other.key = blocker.key) = [blocker] := by
    have hmap : ((sistema.planificador.gLockedKeys.filter fun other =>
        other.key = blocker.key).map KeyBlocker.hold) = [blocker.hold] := by
      rw [← honly, PlanificadorState.dispatcher, List.filter_map]
      rfl
    obtain ⟨other, hother, hsame⟩ := List.map_eq_singleton_iff.mp hmap
    have hkey : other = blocker := by
      cases other
      cases blocker
      cases hsame
      rfl
    rw [hother, hkey]
  have hwho := hinv.sockets.processOn_eq hget hconnected
  rw [Allows, ownersOf, List.filter_map]
  exact (congrArg (List.map _) hfilter).trans (by rw [List.map_singleton, hfd, hwho])

theorem mem_keys_of_determineIfKeyIsBlocked {state : PlanificadorState config} {key : CString} :
    determineIfKeyIsBlocked key state.gLockedKeys = true ↔
      key ∈ state.gLockedKeys.map KeyBlocker.key := by
  rw [determineIfKeyIsBlocked_iff, keys_dispatcher]

/-- **The scheduler takes a message about the engaged ESI.** -/
theorem SistemaInvariant.messageStep (hinv : SistemaInvariant sistema)
    (hget : sistema.esis[who]? = some esi) (hconnected : esi.connected = true)
    (hexecution : sistema.planificador.gExecutionQueue = [esi.fd])
    (hengaged : Engaged sistema who esi) (hmessage : sistema.coordinatorMessage = some next) :
    MessageStep sistema next who esi := by
  obtain ⟨message, sender, rest, planificador, answer, hmessages, hbranch, rfl⟩ :=
    of_coordinatorMessage hmessage
  have hsilent : ¬ sistema.toPlanificador = [] := fun hnone => by
    rw [hnone] at hmessages
    cases hmessages
  obtain hexchange | ⟨-, hnone, -⟩ := hengaged
  swap
  · exact absurd hnone hsilent
  have hstep := hbranch
  cases hexchange with
  | inquiring hphase horders hresults hline hasking =>
      obtain ⟨hasked, hanswers⟩ := hasking
      cases hasked.symm.trans hmessages
      obtain ⟨entered, hwait, hanswer⟩ := Option.bind_eq_some_iff.mp hbranch
      obtain ⟨count, rfl⟩ := of_semWait hwait
      dsimp only at hanswer
      split at hanswer
      · rename_i hlocked
        obtain ⟨rfl, rfl⟩ := Prod.mk.inj (Option.some.inj hanswer)
        refine ⟨⟨_, _, congrArg List.head? hmessages, hstep, trivial⟩, rfl, .inl ?_, rfl,
          .inl (by simp)⟩
        exact .blocked hphase horders hresults hline rfl
          (mem_keys_of_determineIfKeyIsBlocked.mp hlocked) ⟨rfl, by simp [hanswers]; rfl⟩
      · rename_i hfree
        obtain ⟨rfl, rfl⟩ := Prod.mk.inj (Option.some.inj hanswer)
        refine ⟨⟨_, _, congrArg List.head? hmessages, hstep, trivial⟩, rfl, .inl ?_, rfl,
          .inl (by simp [semPost])⟩
        exact .unblocked hphase horders hresults hline rfl rfl
          (fun hmem => hfree (mem_keys_of_determineIfKeyIsBlocked.mpr hmem))
          ⟨rfl, by simp [hanswers]; rfl⟩
  | inquiringOwner hphase horders hresults hline hinquired hlocked hasking =>
      obtain ⟨hasked, hanswers⟩ := hasking
      cases hasked.symm.trans hmessages
      obtain ⟨key, hkey, hanswer⟩ := Option.bind_eq_some_iff.mp hbranch
      obtain rfl := Option.some.inj (hinquired.symm.trans hkey)
      obtain ⟨response, hresponse, hanswer⟩ := Option.bind_eq_some_iff.mp hanswer
      split at hanswer
      · rename_i howner
        rw [howner] at hresponse
        have hallows := hinv.allows hget hconnected hexecution hresponse
        obtain ⟨rfl, rfl⟩ := Prod.mk.inj (Option.some.inj hanswer)
        refine ⟨⟨_, _, congrArg List.head? hmessages, hstep, trivial⟩, rfl, .inl ?_, rfl,
          .inl (by simp [semPost])⟩
        exact .owned hphase horders hresults hline hlocked hallows ⟨rfl, by simp [hanswers]; rfl⟩
      · obtain ⟨rfl, rfl⟩ := Prod.mk.inj (Option.some.inj hanswer)
        refine ⟨⟨_, _, congrArg List.head? hmessages, hstep, trivial⟩, rfl, .inl ?_, rfl,
          .inl (by simp [semPost])⟩
        exact .notOwned hphase horders hresults hline hinquired hlocked
          ⟨rfl, by simp [hanswers]; rfl⟩
  | @blocking operation hphase horders hresults hline hinquired hinquirer hfree hasking =>
      obtain ⟨hasked, hanswers⟩ := hasking
      cases hasked.symm.trans hmessages
      obtain ⟨entered, hwait, hanswer⟩ := Option.bind_eq_some_iff.mp hbranch
      obtain ⟨count, rfl⟩ := of_semWait hwait
      obtain ⟨key, hkey, hanswer⟩ := Option.bind_eq_some_iff.mp hanswer
      obtain rfl := Option.some.inj (hinquired.symm.trans hkey)
      simp only [addNewKeyBlocker, hexecution, Option.bind_eq_bind, Option.bind_some] at hanswer
      obtain ⟨rfl, rfl⟩ := Prod.mk.inj (Option.some.inj hanswer)
      have hwho := hinv.sockets.processOn_eq hget hconnected
      refine ⟨⟨_, _, congrArg List.head? hmessages, hstep, ?_⟩, rfl, .inl ?_, rfl,
        .inr ⟨operation.key, ?_⟩⟩
      · intro key' hkey' executing hexecuting
        obtain rfl := Option.some.inj (hinquired.symm.trans hkey')
        rw [hexecution] at hexecuting
        obtain rfl := Option.some.inj hexecuting
        refine ⟨hfree, hinv.known _ ?_⟩
        rw [hinv.one.outstanding, hexecution]
        exact List.mem_singleton_self _
      · exact .blockedSuccesfully hphase horders hresults hline (by simp [semPost])
          ⟨rfl, by simp [hanswers]; rfl⟩
      · simp [semPost, hwho, hinquirer]
  | unblocking hphase horders hresults hline hasking =>
      obtain ⟨hasked, hanswers⟩ := hasking
      cases hasked.symm.trans hmessages
      obtain ⟨entered, hwait, hanswer⟩ := Option.bind_eq_some_iff.mp hbranch
      obtain ⟨count, rfl⟩ := of_semWait hwait
      obtain ⟨rfl, rfl⟩ := Prod.mk.inj (Option.some.inj hanswer)
      refine ⟨⟨_, _, congrArg List.head? hmessages, hstep, trivial⟩, rfl, .inl ?_, rfl,
        .inl (by simp [semPost])⟩
      exact .unlockedSuccesfully hphase horders hresults hline ⟨rfl, by simp [hanswers]; rfl⟩
  | ordered _ _ _ hquiet | sent _ _ _ _ hquiet | requested _ _ _ _ hquiet
  | everythingOk _ _ _ _ hquiet | youAreBlocked _ _ _ _ _ _ hquiet | illegal _ _ _ hquiet
  | scriptEnd _ _ _ hquiet | succeeded _ _ _ hquiet | reportedBlocked _ _ _ _ _ _ hquiet =>
      exact absurd hquiet.1 hsilent
  | unblocked _ _ _ _ _ _ _ hanswered | blocked _ _ _ _ _ _ hanswered
  | owned _ _ _ _ _ _ hanswered | notOwned _ _ _ _ _ _ hanswered
  | blockedSuccesfully _ _ _ _ _ hanswered | unlockedSuccesfully _ _ _ _ hanswered =>
      exact absurd hanswered.1 hsilent

/-! ## The scheduler tells an ESI to execute -/

/-- An ESI that is not told to execute has still nothing to do. -/
theorem Esi.Quiet.hear (hquiet : esi.Quiet) {connectedFds orders : List ℤ}
    (hnot : (esi.hear connectedFds orders).connected = true → esi.fd ∉ orders) :
    (esi.hear connectedFds orders).Quiet := by
  simp only [Esi.hear] at hnot ⊢
  split
  · rename_i hboth
    rw [if_pos hboth] at hnot
    have hcount := List.count_eq_zero.mpr (hnot (Bool.and_eq_true_iff.mp hboth).1)
    exact hquiet.imp (fun hidle => ⟨hidle.1, by simp [hcount, hidle.2.1], hidle.2.2⟩) id
  · exact hquiet.imp id id

/-- Nothing is heard while no connection is closed and nobody is told to execute. -/
theorem map_hear_nil {esis : List Esi} {connectedFds : List ℤ}
    (hopen : ∀ esi ∈ esis, esi.connected = true → esi.fd ∈ connectedFds) :
    esis.map (Esi.hear connectedFds []) = esis := by
  refine (List.map_congr_left fun esi hmem => ?_).trans (List.map_id esis)
  have hfd := hopen esi hmem
  obtain ⟨fd, lines, phase, orders, results, alive, connected⟩ := esi
  cases connected with
  | true => simp [Esi.hear, hfd rfl]
  | false => simp [Esi.hear]

/-- **A choice begins a conversation**: the ESI that is chosen, if it is still
connected, is told to execute. -/
theorem conversation_of_chosen {planificador : PlanificadorState config} {fds : List ℤ}
    (hquiet : ∀ esi ∈ sistema.esis, esi.Quiet)
    (hsilent : Silent sistema.toPlanificador sistema.toCoordinador)
    (hsockets : Sockets fds sistema.esis)
    (hchosen : Chosen sistema.planificador planificador) :
    Conversation (sistema.afterPlanificador planificador) := by
  have hafter := hsockets.hear planificador.connectedFds planificador.outstanding
  have hesis : (sistema.afterPlanificador planificador).esis =
      sistema.esis.map (Esi.hear planificador.connectedFds planificador.outstanding) := by
    rw [SistemaState.afterPlanificador, hchosen.orders, List.drop_left]
  by_cases htold : ∃ (who : ℕ) (esi : Esi), sistema.esis[who]? = some esi ∧
      (esi.hear planificador.connectedFds planificador.outstanding).connected = true ∧
      esi.fd ∈ planificador.outstanding
  · obtain ⟨who, esi, hget, hconnected, htold⟩ := htold
    have hexecution : planificador.gExecutionQueue = [esi.fd] := by
      rw [hchosen.one.outstanding] at htold
      obtain hnone | ⟨hone, -⟩ := hchosen.one.single
      · rw [hnone] at htold
        cases htold
      · rw [hone] at htold ⊢
        rw [List.mem_singleton.mp htold]
    have honly : planificador.outstanding = [esi.fd] :=
      hchosen.one.outstanding.trans hexecution
    have hboth : (esi.connected && planificador.connectedFds.contains esi.fd) = true := by
      by_contra hnot
      rw [Esi.hear, if_neg hnot] at hconnected
      cases hconnected
    have hheard : esi.hear planificador.connectedFds planificador.outstanding =
        { esi with orders := esi.orders + 1 } := by
      rw [Esi.hear, if_pos hboth, honly, List.count_singleton_self]
    have hgetHeard : (sistema.afterPlanificador planificador).esis[who]? =
        some { esi with orders := esi.orders + 1 } := by
      rw [hesis, List.getElem?_map, hget, ← hheard]
      rfl
    rw [hheard] at hconnected
    refine .engaged hgetHeard hconnected hexecution ?_ fun other esi' hne hget' => ?_
    · obtain hidle | hgone := hquiet esi (List.mem_of_getElem? hget)
      · exact .inl (.ordered hidle.1 (congrArg (· + 1) hidle.2.1) hidle.2.2 hsilent)
      · exact .inr ⟨hgone, hsilent⟩
    · rw [hesis, List.getElem?_map] at hget'
      obtain ⟨before, hbefore, rfl⟩ := Option.map_eq_some_iff.mp hget'
      refine (hquiet before (List.mem_of_getElem? hbefore)).hear fun hopen htold' => hne ?_
      -- the sockets of both are the one that was chosen
      rw [honly] at htold'
      refine hafter.unique other who _ _ (by rw [List.getElem?_map, hbefore]; rfl)
        (by rw [List.getElem?_map, hget]; rfl) hopen (by rw [hheard]; exact hconnected) ?_
      simp only [Esi.hear, apply_ite Esi.fd, ite_self]
      exact List.mem_singleton.mp htold'
  · refine .idle (fun heard hmem => ?_) hsilent
    rw [hesis] at hmem
    obtain ⟨esi, hesi, rfl⟩ := List.mem_map.mp hmem
    obtain ⟨who, hget⟩ := List.mem_iff_getElem?.mp hesi
    exact (hquiet esi hesi).hear fun hopen hfd => htold ⟨who, esi, hget, hopen, hfd⟩

/-! ## Steps -/

/-- All have nothing to do, also after one that has nothing to do has changed. -/
theorem quiet_of_mem_set {esis : List Esi} {changed : Esi} (hchanged : changed.Quiet)
    (hothers : ∀ (other : ℕ) (esi' : Esi), other ≠ who → esis[other]? = some esi' → esi'.Quiet) :
    ∀ esi ∈ esis.set who changed, esi.Quiet := by
  intro esi hmem
  obtain ⟨i, hi⟩ := List.mem_iff_getElem?.mp hmem
  rw [List.getElem?_set] at hi
  split at hi
  · split at hi
    · exact Option.some.inj hi ▸ hchanged
    · cases hi
  · rename_i hne
    exact hothers i esi (Ne.symm hne) hi

/-- The engaged ESI changes and stays engaged. -/
theorem conversation_of_set {changed : Esi} (hget : sistema.esis[who]? = some esi)
    (hesis : next.esis = sistema.esis.set who changed) (hconnected : changed.connected = true)
    (hexecution : next.planificador.gExecutionQueue = [changed.fd])
    (hengaged : Engaged next who changed)
    (hothers : ∀ (other : ℕ) (esi' : Esi), other ≠ who → sistema.esis[other]? = some esi' →
      esi'.Quiet) : Conversation next := by
  have hlt := (List.getElem?_eq_some_iff.mp hget).1
  refine .engaged (by rw [hesis, List.getElem?_set_self hlt]) hconnected hexecution hengaged
    fun other esi' hne hget' => ?_
  rw [hesis, List.getElem?_set_ne (Ne.symm hne)] at hget'
  exact hothers other esi' hne hget'

namespace SistemaInvariant

/-- What the scheduler keeps by itself. -/
theorem owned_of_mainStep (hinv : SistemaInvariant sistema) {event : Event}
    {planificador : PlanificadorState config}
    (hmain : mainStep config sistema.planificador event = some planificador)
    (hblocks : BlocksFree sistema.planificador event) :
    planificador.dispatcher.Genuine (-1) ∧ planificador.dispatcher.Owned (-1) :=
  ⟨(performs_mainStep hmain).genuine hinv.genuine,
    owned_mainStep hinv.genuine hblocks hmain hinv.owned⟩

/-- A choice keeps the invariant, when all ESIs have nothing to do. -/
theorem of_chosen (hinv : SistemaInvariant sistema) {event : Event} {esis : List Esi}
    {planificador : PlanificadorState config} {fds : List ℤ}
    (hmain : mainStep config sistema.planificador event = some planificador)
    (hblocks : BlocksFree sistema.planificador event)
    (hchosen : Chosen sistema.planificador planificador)
    (hquiet : ∀ esi ∈ esis, esi.Quiet) (hsockets : Sockets fds esis)
    (hsilent : Silent sistema.toPlanificador sistema.toCoordinador) :
    SistemaInvariant ({ sistema with esis := esis }.afterPlanificador planificador) where
  one := hchosen.one
  known := hchosen.known
  genuine := (hinv.owned_of_mainStep hmain hblocks).1
  owned := (hinv.owned_of_mainStep hmain hblocks).2
  sockets := hsockets.hear _ _
  conversation := by
    have hconversation : Conversation
        ({ sistema with esis := esis }.afterPlanificador planificador) :=
      conversation_of_chosen hquiet hsilent hsockets hchosen
    exact hconversation
  allowed := hinv.allowed
  attributed := hinv.attributed

theorem connect (hinv : SistemaInvariant sistema) {fd : ℤ} {handshake : Bool}
    {lines : List EsiOperation} (hconnect : sistema.connect fd handshake lines = some next) :
    SistemaInvariant next := by
  obtain ⟨planificador, hmain, hrest⟩ := Option.bind_eq_some_iff.mp hconnect
  have hkept := hinv.owned_of_mainStep hmain trivial
  have hone := oneExecuting_newClient hinv.one hmain
  have hadmission := admission_newClient hmain
  have hstill : ∀ other ∈ sistema.planificador.connectedFds,
      other ∈ planificador.connectedFds := by
    intro other hmem
    rw [hadmission.connectedFds]
    split
    · exact List.mem_append_left _ hmem
    · exact hmem
  have hheard : (sistema.afterPlanificador planificador).esis = sistema.esis := by
    rw [SistemaState.afterPlanificador, hadmission.orders, List.drop_length]
    exact map_hear_nil fun esi hmem hopen => hstill _ (hinv.sockets.opened esi hmem hopen)
  have hknown : ∀ other ∈ planificador.outstanding, other ∈ planificador.ids := by
    intro other hmem
    rw [hone.outstanding, hadmission.gExecutionQueue, ← hinv.one.outstanding] at hmem
    rw [hadmission.ids]
    exact List.mem_append_left _ (hinv.known other hmem)
  dsimp only at hrest
  rw [hheard] at hrest
  rw [← Option.some.inj hrest]
  refine ⟨hone, hknown, hkept.1, hkept.2, ?_, ?_, hinv.allowed, hinv.attributed⟩
  · refine hinv.sockets.append hadmission.fresh (fun hopen => ?_) hstill
    obtain rfl : handshake = true := hopen
    simp [hadmission.connectedFds, SistemaState.afterPlanificador]
  · cases hinv.conversation with
    | idle hquiet hsilent =>
        refine .idle (fun esi hmem => ?_) hsilent
        rcases List.mem_append.mp hmem with hbefore | hlast
        · exact hquiet esi hbefore
        · exact .inl (List.mem_singleton.mp hlast ▸ ⟨rfl, rfl, rfl⟩)
    | engaged hget hconnected hexecuting hengaged hothers =>
        have hlt := (List.getElem?_eq_some_iff.mp hget).1
        refine .engaged (by rw [List.getElem?_append_left hlt, hget]) hconnected
          (hadmission.gExecutionQueue.trans hexecuting) ?_ fun other esi' hne hget' => ?_
        · simp only [Engaged, SistemaState.afterPlanificador, hadmission.gLockedKeys,
            hadmission.lastKeyInquired]
          exact hengaged
        · rcases Nat.lt_or_ge other sistema.esis.length with hlt' | hge
          · exact hothers other esi' hne (by rwa [List.getElem?_append_left hlt'] at hget')
          · rw [List.getElem?_append_right hge] at hget'
            obtain rfl := List.mem_singleton.mp (List.mem_of_getElem? hget')
            exact .inl ⟨rfl, rfl, rfl⟩

theorem coordinatorMessage (hinv : SistemaInvariant sistema)
    (hmessage : sistema.coordinatorMessage = some next) : SistemaInvariant next := by
  cases hinv.conversation with
  | idle hquiet hsilent =>
      obtain ⟨_, _, _, _, _, hmessages, -⟩ := of_coordinatorMessage hmessage
      rw [hsilent.1] at hmessages
      cases hmessages
  | engaged hget hconnected hexecution hengaged hothers =>
      obtain ⟨⟨message, answer, -, hbranch, hblocks⟩, hesis, hengaged, hrequests, hblockedKeys⟩ :=
        hinv.messageStep hget hconnected hexecution hengaged hmessage
      have hmain : mainStep config sistema.planificador (.coordinator message) =
          some next.planificador := Option.map_eq_some_iff.mpr ⟨_, hbranch, rfl⟩
      have hkept := hinv.owned_of_mainStep hmain hblocks
      have hone := oneExecuting_coordinatorBranch hinv.one hbranch
      obtain ⟨_, _, _, _, _, hsame⟩ := of_coordinatorBranch hbranch
      refine ⟨hone, ?_, hkept.1, hkept.2, ?_, ?_, hrequests ▸ hinv.allowed, ?_⟩
      · rw [hsame]
        exact hinv.known
      · rw [hsame, hesis]
        exact hinv.sockets
      · exact .engaged (hesis ▸ hget) hconnected (by rw [hsame]; exact hexecution) hengaged
          (hesis ▸ hothers)
      · obtain hnone | ⟨key, hadded⟩ := hblockedKeys
        · exact hnone ▸ hinv.attributed
        · intro blocked hmem
          rw [hadded] at hmem
          rcases List.mem_append.mp hmem with hbefore | hlast
          · exact hinv.attributed blocked hbefore
          · exact List.mem_singleton.mp hlast ▸ ⟨_, rfl, rfl⟩

theorem executingEsi (hinv : SistemaInvariant sistema) {garbage scriptGarbage : ExecutionResult}
    {meanwhile : List Command} {unreachable : List ℤ}
    (hpace : keepsPace sistema (.executingEsi garbage scriptGarbage meanwhile unreachable) = true)
    (hexecutes : sistema.executingEsi garbage scriptGarbage meanwhile unreachable = some next) :
    SistemaInvariant next := by
  obtain ⟨hwell, hloses⟩ := Bool.and_eq_true_iff.mp hpace
  obtain ⟨who, hwho, hrest⟩ := Option.bind_eq_some_iff.mp hexecutes
  obtain ⟨esi, hget, hrest⟩ := Option.bind_eq_some_iff.mp hrest
  obtain ⟨⟨result, scriptEnd, read⟩, hrecv, hrest⟩ := Option.bind_eq_some_iff.mp hrest
  obtain ⟨planificador, hmain, hrest⟩ := Option.bind_eq_some_iff.mp hrest
  rw [← Option.some.inj hrest]
  simp only [schedulerEvent, hwho, hget, hrecv, Option.bind_eq_bind, Option.bind_some,
    Option.all_some] at hwell
  simp only [losesNoneInFlight, hwho, hget, Option.all_some, Bool.or_eq_true,
    Bool.not_eq_true'] at hloses
  have hlost : esi.alive = false → esi.phase.inFlight = false := fun hdead =>
    hloses.resolve_left (by simp [hdead])
  obtain ⟨esi', hget', hconnected, hfd⟩ := of_processOn hwho
  obtain rfl := Option.some.inj (hget'.symm.trans hget)
  have hchosen := chosen_executingEsiBranch hinv.one hwell hmain
  have hread := Esi.connection_of_recvResult hrecv
  have hsockets := hinv.sockets.set hget hread.1 hread.2
  -- the ESI that is read, if it was told to execute, has nothing to do afterwards
  suffices hquiet : read.Quiet ∧ (∀ (other : ℕ) (esi : Esi), other ≠ who →
      sistema.esis[other]? = some esi → esi.Quiet) ∧
      Silent sistema.toPlanificador sistema.toCoordinador from
    hinv.of_chosen hmain trivial hchosen (quiet_of_mem_set hquiet.1 hquiet.2.1) hsockets
      hquiet.2.2
  cases hinv.conversation with
  | idle hquiet hsilent =>
      have hnothing := hquiet esi' (List.mem_of_getElem? hget)
      obtain ⟨rfl, -, -⟩ := Esi.recvResult_of_results hnothing.results hrecv
      exact ⟨hnothing, fun other esi _ hother => hquiet esi (List.mem_of_getElem? hother), hsilent⟩
  | @engaged engaged esi hgetEngaged hopen hexecution hengaged hothers =>
      have hsame : sistema.planificador.executingEsi = esi.fd := by
        obtain hnone | ⟨hone, -⟩ := hinv.one.single
        · rw [hnone] at hexecution
          cases hexecution
        · exact (List.cons.inj (hone.symm.trans hexecution)).1
      obtain rfl := Option.some.inj
        (hwho.symm.trans (hsame ▸ hinv.sockets.processOn_eq hgetEngaged hopen))
      obtain rfl := Option.some.inj (hget.symm.trans hgetEngaged)
      obtain hexchange | ⟨hgone, hsilent⟩ := hengaged
      · obtain ⟨hquiet, hsilent, -⟩ := hexchange.recvResult hlost hrecv
        exact ⟨hquiet, hothers, hsilent⟩
      · have hnothing : esi'.Quiet := .inr hgone
        obtain ⟨rfl, -, -⟩ := Esi.recvResult_of_results hnothing.results hrecv
        exact ⟨hnothing, hothers, hsilent⟩

/-- Nothing happens while nobody is told to execute and no connection is closed. -/
theorem afterPlanificador_eq (hinv : SistemaInvariant sistema)
    {planificador : PlanificadorState config}
    (hconnected : planificador.connectedFds = sistema.planificador.connectedFds)
    (horders : planificador.orders = sistema.planificador.orders) :
    sistema.afterPlanificador planificador = { sistema with planificador := planificador } := by
  rw [SistemaState.afterPlanificador, horders, List.drop_length, hconnected,
    map_hear_nil hinv.sockets.opened]

theorem endOfTurn (hinv : SistemaInvariant sistema) {unreachable : List ℤ}
    {planificador : PlanificadorState config}
    (hwell : choosesWell sistema.planificador (.endOfTurn unreachable) = true)
    (hmain : mainStep config sistema.planificador (.endOfTurn unreachable) = some planificador) :
    SistemaInvariant (sistema.afterPlanificador planificador) := by
  obtain rfl | ⟨hnone, hchosen⟩ := chosen_endOfTurn hinv.one hwell hmain
  · rw [hinv.afterPlanificador_eq rfl rfl]
    exact hinv
  · cases hinv.conversation with
    | idle hquiet hsilent =>
        exact hinv.of_chosen hmain trivial hchosen hquiet hinv.sockets hsilent
    | engaged _ _ hexecution =>
        rw [hnone] at hexecution
        cases hexecution

theorem console (hinv : SistemaInvariant sistema) {command : Command}
    {planificador : PlanificadorState config}
    (hmain : mainStep config sistema.planificador (.console command) = some planificador) :
    SistemaInvariant (sistema.afterPlanificador planificador) := by
  have hkept := hinv.owned_of_mainStep hmain trivial
  have hone := oneExecuting_mainStep hinv.one rfl hmain
  obtain rfl := Option.some.inj hmain
  obtain ⟨_, _, _, _, _, _, _, heq⟩ := executeCommand_eq sistema.planificador command
  rw [hinv.afterPlanificador_eq (by rw [heq]) (by rw [heq])]
  rw [heq] at hone hkept ⊢
  refine ⟨hone, hinv.known, hkept.1, hkept.2, hinv.sockets, ?_, hinv.allowed, hinv.attributed⟩
  cases hinv.conversation with
  | idle hquiet hsilent => exact .idle hquiet hsilent
  | engaged hget hconnected hexecution hengaged hothers =>
      exact .engaged hget hconnected hexecution hengaged hothers

/-- An ESI or its thread goes on: the scheduler and the sockets stay as they are. -/
theorem of_esis (hinv : SistemaInvariant sistema) (changed : Esi)
    (hplanificador : next.planificador = sistema.planificador)
    (hget : sistema.esis[who]? = some esi) (hfd : changed.fd = esi.fd)
    (hconnected : changed.connected = esi.connected)
    (hesis : next.esis = sistema.esis.set who changed)
    (hblockedKeys : next.blockedKeys = sistema.blockedKeys)
    (hallowed : ∀ request ∈ next.requests,
      Allows request.operation.key request.sender request.owners)
    (hconversation : Conversation next) : SistemaInvariant next where
  one := hplanificador ▸ hinv.one
  known := hplanificador ▸ hinv.known
  genuine := hplanificador ▸ hinv.genuine
  owned := hplanificador ▸ hinv.owned
  sockets := by
    rw [hplanificador, hesis]
    exact hinv.sockets.set hget hfd hconnected
  conversation := hconversation
  allowed := hallowed
  attributed := hblockedKeys ▸ hinv.attributed

theorem run (hinv : SistemaInvariant sistema) {changed : Esi}
    (hget : sistema.esis[who]? = some esi) (hrun : esi.run = some changed) :
    SistemaInvariant { sistema with esis := sistema.esis.set who changed } := by
  have hsame := Esi.connection_of_run hrun
  refine hinv.of_esis changed rfl hget hsame.1 hsame.2 rfl rfl hinv.allowed ?_
  have hbusy : ¬ esi.Quiet := fun hquiet => by
    rw [hquiet.run] at hrun
    cases hrun
  cases hinv.conversation with
  | idle hquiet hsilent => exact absurd (hquiet esi (List.mem_of_getElem? hget)) hbusy
  | @engaged engaged esi' hgetEngaged hconnected hexecution hengaged hothers =>
      by_cases heq : who = engaged
      · subst heq
        obtain rfl := Option.some.inj (hget.symm.trans hgetEngaged)
        obtain hexchange | ⟨hgone, -⟩ := hengaged
        · exact conversation_of_set hget rfl (hsame.2.trans hconnected)
            (hexecution.trans (congrArg ([·]) hsame.1.symm)) (hexchange.run hrun) hothers
        · exact absurd (.inr hgone) hbusy
      · exact absurd (hothers who esi heq hget) hbusy

theorem die (hinv : SistemaInvariant sistema) (hget : sistema.esis[who]? = some esi) :
    SistemaInvariant
      { sistema with esis := sistema.esis.set who { esi with alive := false } } := by
  refine hinv.of_esis { esi with alive := false } rfl hget rfl rfl rfl rfl
    hinv.allowed ?_
  have hdies : esi.Quiet → Esi.Quiet { esi with alive := false } := fun hquiet =>
    hquiet.imp id fun hgone => ⟨rfl, hgone.2⟩
  cases hinv.conversation with
  | idle hquiet hsilent =>
      refine .idle (quiet_of_mem_set (hdies (hquiet esi (List.mem_of_getElem? hget))) ?_) hsilent
      exact fun other esi' _ hother => hquiet esi' (List.mem_of_getElem? hother)
  | @engaged engaged esi' hgetEngaged hconnected hexecution hengaged hothers =>
      by_cases heq : who = engaged
      · subst heq
        obtain rfl := Option.some.inj (hget.symm.trans hgetEngaged)
        refine conversation_of_set hget rfl hconnected hexecution ?_ hothers
        exact hengaged.imp id fun hgone => ⟨⟨rfl, hgone.1.2⟩, hgone.2⟩
      · have hlt := (List.getElem?_eq_some_iff.mp hgetEngaged).1
        refine .engaged (by rw [List.getElem?_set_ne heq]; exact hgetEngaged) hconnected
          hexecution hengaged fun other other' hne hother => ?_
        rw [List.getElem?_set] at hother
        split at hother
        · split at hother
          · exact Option.some.inj hother ▸ hdies (hothers who esi heq hget)
          · cases hother
        · exact hothers other other' hne hother

theorem thread (hinv : SistemaInvariant sistema) {succeeds : Bool}
    (hthread : sistema.thread who succeeds = some next) : SistemaInvariant next := by
  obtain ⟨esi, hget, -⟩ := Option.bind_eq_some_iff.mp hthread
  have hbusy : ¬ esi.Quiet := fun hquiet => by
    rw [thread_eq_none succeeds hget hquiet.inFlight] at hthread
    cases hthread
  cases hinv.conversation with
  | idle hquiet hsilent => exact absurd (hquiet esi (List.mem_of_getElem? hget)) hbusy
  | @engaged engaged esi' hgetEngaged hconnected hexecution hengaged hothers =>
      by_cases heq : who = engaged
      · subst heq
        obtain rfl := Option.some.inj (hget.symm.trans hgetEngaged)
        obtain ⟨hplanificador, hinquirer, hblockedKeys, ⟨phase, hesis, hengaged⟩, hrequests⟩ :=
          threadStep hget hengaged hthread
        refine hinv.of_esis { esi with phase := phase } hplanificador hget rfl rfl hesis
          hblockedKeys ?_ ?_
        · obtain hsame | ⟨operation, owners, hadded, hallows⟩ := hrequests
          · exact hsame ▸ hinv.allowed
          · intro request hmem
            rw [hadded] at hmem
            rcases List.mem_append.mp hmem with hbefore | hlast
            · exact hinv.allowed request hbefore
            · exact List.mem_singleton.mp hlast ▸ hallows
        · exact conversation_of_set hget hesis hconnected (hplanificador ▸ hexecution) hengaged
            hothers
      · exact absurd (hothers who esi heq hget) hbusy

/-- **Every step that keeps pace keeps the invariant.** -/
theorem step (hinv : SistemaInvariant sistema) {action : Action}
    (hpace : keepsPace sistema action = true)
    (hstep : Sistema.step config sistema action = some next) : SistemaInvariant next := by
  cases action with
  | connect fd handshake lines => exact hinv.connect hstep
  | coordinatorMessage => exact hinv.coordinatorMessage hstep
  | executingEsi garbage scriptGarbage meanwhile unreachable =>
      exact hinv.executingEsi hpace hstep
  | endOfTurn unreachable =>
      obtain ⟨planificador, hmain, rfl⟩ := Option.map_eq_some_iff.mp hstep
      exact hinv.endOfTurn (Bool.and_eq_true_iff.mp hpace).1 hmain
  | console command =>
      obtain rfl := Option.some.inj hstep
      exact hinv.console rfl
  | esi who =>
      obtain ⟨esi, hget, hrest⟩ := Option.bind_eq_some_iff.mp hstep
      obtain ⟨changed, hrun, hrest⟩ := Option.bind_eq_some_iff.mp hrest
      exact Option.some.inj hrest ▸ hinv.run hget hrun
  | die who =>
      obtain ⟨esi, hget, hrest⟩ := Option.bind_eq_some_iff.mp hstep
      exact Option.some.inj hrest ▸ hinv.die hget
  | thread who succeeds => exact hinv.thread hstep

theorem init (config : Config) : SistemaInvariant (SistemaState.init config) where
  one := oneExecuting_init config
  known _ hmem := by cases hmem
  genuine := genuine_init config
  owned := owned_init config
  sockets := ⟨fun _ hmem => (by cases hmem), fun _ _ _ _ hi => (by simp [SistemaState.init] at hi)⟩
  conversation := .idle (fun _ hmem => by cases hmem) ⟨rfl, rfl⟩
  allowed _ hmem := by cases hmem
  attributed _ hmem := by cases hmem

/-- The scheduler blocks keys that are free only. -/
theorem blocksFree (hinv : SistemaInvariant sistema) {action : Action} {event : Event}
    (hstep : Sistema.step config sistema action = some next)
    (hevent : schedulerEvent sistema action = some event) :
    BlocksFree sistema.planificador event := by
  cases action with
  | coordinatorMessage =>
      obtain ⟨sent, hhead, rfl⟩ := Option.map_eq_some_iff.mp hevent
      cases hinv.conversation with
      | idle _ hsilent =>
          rw [hsilent.1] at hhead
          cases hhead
      | engaged hget hconnected hexecution hengaged _ =>
          obtain ⟨message, answer, hsent, -, hblocks⟩ :=
            (hinv.messageStep hget hconnected hexecution hengaged hstep).branch
          obtain rfl := Option.some.inj (hsent.symm.trans hhead)
          exact hblocks
  | executingEsi garbage scriptGarbage meanwhile unreachable =>
      obtain ⟨who, -, hrest⟩ := Option.bind_eq_some_iff.mp hevent
      obtain ⟨esi, -, hrest⟩ := Option.bind_eq_some_iff.mp hrest
      obtain ⟨received, -, hrest⟩ := Option.bind_eq_some_iff.mp hrest
      rw [← Option.some.inj hrest]
      trivial
  | connect | endOfTurn | console =>
      rw [← Option.some.inj hevent]
      trivial
  | esi | die | thread => cases hevent

/-- Distinct keys stay distinct. -/
theorem distinct (hinv : SistemaInvariant sistema) {action : Action}
    (hdistinct : sistema.planificador.dispatcher.Distinct)
    (hstep : Sistema.step config sistema action = some next) :
    next.planificador.dispatcher.Distinct := by
  have hmain := mainStep_of_step hstep
  cases hevent : schedulerEvent sistema action with
  | none =>
      rw [hevent] at hmain
      exact (show next.planificador = _ from hmain) ▸ hdistinct
  | some event =>
      rw [hevent] at hmain
      exact distinct_mainStep hinv.genuine (hinv.blocksFree hstep hevent) hmain hdistinct

end SistemaInvariant

end SockMyPort.Sistema
