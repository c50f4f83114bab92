/-
# What the functions of the scheduler leave alone

One lemma for each function that says what its result is when the program
survives it, and the frame that all functions share which run between two
authorisations: they never add an ESI to the execution queue, and of the control
variables they change only the flags.
-/

import SockMyPort.Planificador.Main

namespace SockMyPort.Planificador

open SockMyPort.Commons Library

variable {config : Config} {state next : PlanificadorState config} {fd : ℤ}

/-! ## Information -/

/-- The sockets of the registered ESIs. -/
def PlanificadorState.ids (state : PlanificadorState config) : List ℤ :=
  state.gEsiBursts.map EsiInformation.esiId

theorem isSome_obtainEsiInformationById (bursts : List (EsiInformation config)) (fd : ℤ) :
    (obtainEsiInformationById bursts fd).isSome = true ↔
      fd ∈ bursts.map EsiInformation.esiId := by
  simp [obtainEsiInformationById, List.find?_isSome]

/-- A name can be looked up only for a registered ESI. -/
theorem of_logName (hlog : logName state fd = some next) : next = state ∧ fd ∈ state.ids := by
  simp only [logName] at hlog
  split at hlog
  · rename_i hsome
    refine ⟨(Option.some.inj hlog).symm, ?_⟩
    exact (isSome_obtainEsiInformationById _ _).mp (by rw [hsome]; rfl)
  · cases hlog

theorem exists_information (hmem : fd ∈ state.ids) :
    ∃ information, obtainEsiInformationById state.gEsiBursts fd = some information :=
  Option.isSome_iff_exists.mp ((isSome_obtainEsiInformationById _ _).mpr hmem)

theorem logName_of_mem (hmem : fd ∈ state.ids) : logName state fd = some state := by
  obtain ⟨information, hsome⟩ := exists_information hmem
  simp only [logName, hsome]

theorem modifyInformation_of_mem (hmem : fd ∈ state.ids)
    (update : EsiInformation config → EsiInformation config) :
    modifyInformation state fd update =
      some { state with gEsiBursts := updateInformation fd update state.gEsiBursts } := by
  obtain ⟨information, hsome⟩ := exists_information hmem
  simp only [modifyInformation, hsome]

theorem map_esiId_updateInformation {update : EsiInformation config → EsiInformation config}
    (hid : ∀ information, (update information).esiId = information.esiId)
    (bursts : List (EsiInformation config)) (fd : ℤ) :
    (updateInformation fd update bursts).map EsiInformation.esiId =
      bursts.map EsiInformation.esiId := by
  induction bursts with
  | nil => rfl
  | cons information bursts ih =>
      simp only [updateInformation]
      split
      · simp [hid]
      · simp [ih]

/-- Only the information of ESIs changes, and not who is registered. -/
theorem of_modifyInformation {update : EsiInformation config → EsiInformation config}
    (hmodify : modifyInformation state fd update = some next)
    (hid : ∀ information, (update information).esiId = information.esiId) :
    fd ∈ state.ids ∧ ∃ bursts, next = { state with gEsiBursts := bursts } ∧
      bursts.map EsiInformation.esiId = state.ids := by
  simp only [modifyInformation] at hmodify
  split at hmodify
  · rename_i hsome
    refine ⟨(isSome_obtainEsiInformationById _ _).mp (by rw [hsome]; rfl), _,
      (Option.some.inj hmodify).symm, map_esiId_updateInformation hid _ _⟩
  · cases hmodify

/-! ## Waking -/

/-- The state after an ESI has been moved to the ready queue because of a key. -/
def wokenState (state : PlanificadorState config) (key : CString) (wasAStore : Bool) (fd : ℤ) :
    PlanificadorState config :=
  { state with
    gEsisSexpectingKeys := (unlockEsi state.gEsisSexpectingKeys key).2
    gBlockedQueue := takeEsiAwayFromQueue state.gBlockedQueue fd
    gReadyQueue := state.gReadyQueue ++ [fd]
    unblocked := state.unblocked ++ [⟨fd, key⟩]
    turns := if wasAStore then state.turns ++ [⟨fd, key⟩] else state.turns
    gLockedKeys :=
      if wasAStore then
        listRemoveByCondition state.gLockedKeys fun blocker => blocker.key = key
      else state.gLockedKeys
    rescheduleFlag := if config.algorithmIsPreemptive then true else state.rescheduleFlag }

/-- The state after a key has been freed for which nobody waits. -/
def freedState (state : PlanificadorState config) (key : CString) : PlanificadorState config :=
  removeBlockedKeyFromList
    { state with gEsisSexpectingKeys := (unlockEsi state.gEsisSexpectingKeys key).2 } key

/-- `update_blocked_esi_queue` frees a key for which nobody waits, or wakes the
first ESI that waits for it. -/
theorem of_updateBlockedEsiQueue {key : CString} {flag : UnblockFlag} {wasAStore : Bool}
    (hupdate : updateBlockedEsiQueue state key flag wasAStore = some next) :
    ((unlockEsi state.gEsisSexpectingKeys key).1 = -1 ∧
        next = (freedState state key).clear flag) ∨
      ((unlockEsi state.gEsisSexpectingKeys key).1 ≠ -1 ∧
        (unlockEsi state.gEsisSexpectingKeys key).1 ∈ state.ids ∧
        next = (wokenState state key wasAStore
          (unlockEsi state.gEsisSexpectingKeys key).1).clear flag) := by
  simp only [updateBlockedEsiQueue] at hupdate
  split at hupdate
  · exact .inl ⟨‹_›, (Option.some.inj hupdate).symm⟩
  · obtain ⟨logged, hlog, hrest⟩ := Option.bind_eq_some_iff.mp hupdate
    obtain ⟨rfl, hmem⟩ := of_logName hlog
    refine .inr ⟨‹_›, hmem, ?_⟩
    rw [← Option.some.inj hrest]
    cases wasAStore <;> cases hpre : config.algorithmIsPreemptive <;>
      cases flag <;>
      simp [wokenState, hpre, removeBlockedKeyFromList, moveEsiFromAndToQueue,
        PlanificadorState.setQueue, PlanificadorState.queue, PlanificadorState.clear]

/-! ## Releasing and burying -/

/-- The last lines of `release_resources`: the ESI is forgotten. -/
def forgottenState (state : PlanificadorState config) (fd : ℤ) : PlanificadorState config :=
  let closed := removeFd
    { state with
      gEsisSexpectingKeys := listRemoveByCondition state.gEsisSexpectingKeys fun sexpecting =>
        sexpecting.esiFd = fd } fd
  { closed with
    gLockedKeys := listRemoveByCondition closed.gLockedKeys fun blocker => blocker.esiId = fd
    gEsiBursts := listRemoveByCondition closed.gEsiBursts fun information =>
      information.esiId = fd }

theorem of_releaseResources (hrelease : releaseResources state fd = some next) :
    fd ∈ state.ids ∧ ∃ released,
      releaseKeys state (keysOf state.gLockedKeys fd) = some released ∧
        next = forgottenState released fd := by
  obtain ⟨logged, hlog, hrest⟩ := Option.bind_eq_some_iff.mp hrelease
  obtain ⟨rfl, hmem⟩ := of_logName hlog
  obtain ⟨released, hkeys, hrest⟩ := Option.bind_eq_some_iff.mp hrest
  exact ⟨hmem, released, hkeys, (Option.some.inj hrest).symm⟩

/-- The state after an ESI has been taken out of every queue. -/
def buriedState (state : PlanificadorState config) (fd : ℤ) (finished : List ℤ) :
    PlanificadorState config :=
  { state with
    gNewQueue := takeEsiAwayFromQueue state.gNewQueue fd
    gReadyQueue := takeEsiAwayFromQueue state.gReadyQueue fd
    gExecutionQueue := takeEsiAwayFromQueue state.gExecutionQueue fd
    gBlockedQueue := takeEsiAwayFromQueue state.gBlockedQueue fd
    gFinishedQueue := finished }

theorem takeEsiAwayFromQueue_of_not_contains {queue : List ℤ}
    (hcontains : ¬ queue.contains fd = true) : takeEsiAwayFromQueue queue fd = queue := by
  refine List.eraseP_of_forall_not fun other hother heq => hcontains ?_
  simpa [of_decide_eq_true heq] using hother

/-- What burying adds to the queue of finished ESIs. -/
def burial (queue : List ℤ) (fd : ℤ) : List ℤ := if queue.contains fd then [fd] else []

/-- Burying takes the ESI out of the queue, and the queue of finished ESIs grows. -/
theorem buryEsi_eq (state : PlanificadorState config) {queue : Queue}
    (hqueue : queue ≠ .finished) (fd : ℤ) :
    buryEsi state queue fd =
      { state.setQueue queue (takeEsiAwayFromQueue (state.queue queue) fd) with
        gFinishedQueue := state.gFinishedQueue ++ burial (state.queue queue) fd } := by
  by_cases hcontains : (state.queue queue).contains fd = true
  · rw [buryEsi, if_pos hcontains, burial, if_pos hcontains]
    cases queue <;> first
      | exact absurd rfl hqueue
      | rfl
  · rw [buryEsi, if_neg hcontains, burial, if_neg hcontains,
      takeEsiAwayFromQueue_of_not_contains hcontains, List.append_nil]
    cases queue <;> first
      | exact absurd rfl hqueue
      | rfl

/-- What burying in all queues adds to the queue of finished ESIs. -/
def burials (state : PlanificadorState config) (fd : ℤ) : List ℤ :=
  burial state.gNewQueue fd ++ (burial state.gReadyQueue fd ++
    (burial state.gExecutionQueue fd ++ burial state.gBlockedQueue fd))

theorem buryEsi_all_eq (state : PlanificadorState config) (fd : ℤ) :
    buryEsi (buryEsi (buryEsi (buryEsi state .new fd) .ready fd) .execution fd) .blocked fd =
      buriedState state fd (state.gFinishedQueue ++ burials state fd) := by
  have hfinished : state.gFinishedQueue ++ burial state.gNewQueue fd ++
      burial state.gReadyQueue fd ++ burial state.gExecutionQueue fd ++
      burial state.gBlockedQueue fd = state.gFinishedQueue ++ burials state fd := by
    simp only [burials, List.append_assoc]
  rw [buryEsi_eq state (show Queue.new ≠ .finished by decide),
    buryEsi_eq _ (show Queue.ready ≠ .finished by decide),
    buryEsi_eq _ (show Queue.execution ≠ .finished by decide),
    buryEsi_eq _ (show Queue.blocked ≠ .finished by decide), ← hfinished]
  rfl

/-- **The death of a registered ESI**: it is buried, its keys are released, and it is
forgotten. -/
theorem sockMyPort_eq (hmem : fd ∈ state.ids) :
    sockMyPort state fd =
      (releaseKeys (buriedState state fd (state.gFinishedQueue ++ burials state fd))
        (keysOf state.gLockedKeys fd)).map (forgottenState · fd) := by
  have hlogged : logName (buriedState state fd (state.gFinishedQueue ++ burials state fd)) fd =
      some (buriedState state fd (state.gFinishedQueue ++ burials state fd)) := logName_of_mem hmem
  have hforget : ∀ released : PlanificadorState config,
      removeFd (forgottenState released fd) fd = forgottenState released fd := fun released => by
    simp [forgottenState, removeFd, endTurn]
  have hkeys : keysOf (buriedState state fd
      (state.gFinishedQueue ++ burials state fd)).gLockedKeys fd =
        keysOf state.gLockedKeys fd := rfl
  simp only [sockMyPort, releaseResources, logName_of_mem hmem, buryEsi_all_eq, hlogged, hkeys,
    Option.bind_eq_bind, Option.bind_some, Option.bind_assoc, Option.map_eq_bind]
  refine Option.bind_congr fun released _ => congrArg some ?_
  exact hforget released

theorem of_sockMyPort (hsock : sockMyPort state fd = some next) :
    fd ∈ state.ids ∧ ∃ released,
      releaseKeys (buriedState state fd (state.gFinishedQueue ++ burials state fd))
          (keysOf state.gLockedKeys fd) = some released ∧
        next = forgottenState released fd := by
  obtain ⟨logged, hlog, -⟩ := Option.bind_eq_some_iff.mp hsock
  obtain ⟨-, hmem⟩ := of_logName hlog
  rw [sockMyPort_eq hmem] at hsock
  obtain ⟨released, hkeys, rfl⟩ := Option.map_eq_some_iff.mp hsock
  exact ⟨hmem, released, hkeys, rfl⟩

/-! ## The frame of a waking -/

/-- What moves ESIs from the blocked to the ready queue and frees keys changes
nothing else, and asks for another choice only under a preemptive algorithm. -/
structure Waking (state next : PlanificadorState config) : Prop where
  gEsiBursts : next.gEsiBursts = state.gEsiBursts
  gNewQueue : next.gNewQueue = state.gNewQueue
  gExecutionQueue : next.gExecutionQueue = state.gExecutionQueue
  connectedFds : next.connectedFds = state.connectedFds
  executingEsi : next.executingEsi = state.executingEsi
  outstanding : next.outstanding = state.outstanding
  orders : next.orders = state.orders
  lastKeyInquired : next.lastKeyInquired = state.lastKeyInquired
  keyToUnlock : next.keyToUnlock = state.keyToUnlock
  finishedEsiFlag : next.finishedEsiFlag = state.finishedEsiFlag
  newEsiFlag : next.newEsiFlag = state.newEsiFlag
  rescheduleFlag : next.rescheduleFlag = true →
    state.rescheduleFlag = true ∨ config.algorithmIsPreemptive = true

namespace Waking

@[refl]
theorem refl (state : PlanificadorState config) : Waking state state :=
  ⟨rfl, rfl, rfl, rfl, rfl, rfl, rfl, rfl, rfl, rfl, rfl, Or.inl⟩

theorem trans {middle : PlanificadorState config} (hfirst : Waking state middle)
    (hsecond : Waking middle next) : Waking state next where
  gEsiBursts := hsecond.gEsiBursts.trans hfirst.gEsiBursts
  gNewQueue := hsecond.gNewQueue.trans hfirst.gNewQueue
  gExecutionQueue := hsecond.gExecutionQueue.trans hfirst.gExecutionQueue
  connectedFds := hsecond.connectedFds.trans hfirst.connectedFds
  executingEsi := hsecond.executingEsi.trans hfirst.executingEsi
  outstanding := hsecond.outstanding.trans hfirst.outstanding
  orders := hsecond.orders.trans hfirst.orders
  lastKeyInquired := hsecond.lastKeyInquired.trans hfirst.lastKeyInquired
  keyToUnlock := hsecond.keyToUnlock.trans hfirst.keyToUnlock
  finishedEsiFlag := hsecond.finishedEsiFlag.trans hfirst.finishedEsiFlag
  newEsiFlag := hsecond.newEsiFlag.trans hfirst.newEsiFlag
  rescheduleFlag hflag := (hsecond.rescheduleFlag hflag).elim hfirst.rescheduleFlag Or.inr

end Waking

theorem waking_clear (state : PlanificadorState config) (flag : UnblockFlag) :
    Waking state (state.clear flag) := by
  cases flag <;> exact ⟨rfl, rfl, rfl, rfl, rfl, rfl, rfl, rfl, rfl, rfl, rfl, Or.inl⟩

theorem waking_updateBlockedEsiQueue {key : CString} {flag : UnblockFlag} {wasAStore : Bool}
    (hupdate : updateBlockedEsiQueue state key flag wasAStore = some next) :
    Waking state next := by
  obtain ⟨-, rfl⟩ | ⟨-, -, rfl⟩ := of_updateBlockedEsiQueue hupdate
  · have hfreed : Waking state (freedState state key) :=
      ⟨rfl, rfl, rfl, rfl, rfl, rfl, rfl, rfl, rfl, rfl, rfl, Or.inl⟩
    exact hfreed.trans (waking_clear _ _)
  · refine Waking.trans ?_ (waking_clear (wokenState state key wasAStore _) flag)
    refine ⟨rfl, rfl, rfl, rfl, rfl, rfl, rfl, rfl, rfl, rfl, rfl, fun hflag => ?_⟩
    cases hpre : config.algorithmIsPreemptive with
    | false => exact .inl (by simpa [wokenState, hpre] using hflag)
    | true => exact .inr rfl

theorem waking_releaseKeys {keys : List CString} (hkeys : releaseKeys state keys = some next) :
    Waking state next :=
  PartialStep.foldlM_invariant (Waking state)
    (fun hinv hstep => hinv.trans (waking_updateBlockedEsiQueue hstep)) hkeys (.refl state)

/-! ## The frame of everything between two authorisations -/

/-- The execution queue is empty, or holds the executing ESI only, which is
connected. -/
def PlanificadorState.Single (state : PlanificadorState config) : Prop :=
  state.gExecutionQueue = [] ∨
    (state.gExecutionQueue = [state.executingEsi] ∧ state.executingEsi ∈ state.connectedFds)

/-- What everything does that runs between the reading of a result and the next
authorisation. -/
structure Background (state next : PlanificadorState config) : Prop where
  executingEsi : next.executingEsi = state.executingEsi
  orders : next.orders = state.orders
  lastKeyInquired : next.lastKeyInquired = state.lastKeyInquired
  finishedEsiFlag : next.finishedEsiFlag = state.finishedEsiFlag
  outstanding : state.outstanding = [] → next.outstanding = []
  execution : state.gExecutionQueue = [] → next.gExecutionQueue = []
  single : state.Single → next.Single
  rescheduleFlag : next.rescheduleFlag = true →
    state.rescheduleFlag = true ∨ config.algorithmIsPreemptive = true

namespace Background

@[refl]
theorem refl (state : PlanificadorState config) : Background state state :=
  ⟨rfl, rfl, rfl, rfl, id, id, id, Or.inl⟩

theorem trans {middle : PlanificadorState config} (hfirst : Background state middle)
    (hsecond : Background middle next) : Background state next where
  executingEsi := hsecond.executingEsi.trans hfirst.executingEsi
  orders := hsecond.orders.trans hfirst.orders
  lastKeyInquired := hsecond.lastKeyInquired.trans hfirst.lastKeyInquired
  finishedEsiFlag := hsecond.finishedEsiFlag.trans hfirst.finishedEsiFlag
  outstanding h := hsecond.outstanding (hfirst.outstanding h)
  execution h := hsecond.execution (hfirst.execution h)
  single h := hsecond.single (hfirst.single h)
  rescheduleFlag hflag := (hsecond.rescheduleFlag hflag).elim hfirst.rescheduleFlag Or.inr

end Background

theorem Waking.background (hwaking : Waking state next) : Background state next where
  executingEsi := hwaking.executingEsi
  orders := hwaking.orders
  lastKeyInquired := hwaking.lastKeyInquired
  finishedEsiFlag := hwaking.finishedEsiFlag
  outstanding h := hwaking.outstanding.trans h
  execution h := hwaking.gExecutionQueue.trans h
  single h := by
    rw [PlanificadorState.Single, hwaking.gExecutionQueue, hwaking.executingEsi,
      hwaking.connectedFds]
    exact h
  rescheduleFlag := hwaking.rescheduleFlag

/-- Nothing that only changes the sleeping and the ready ESIs, the keys, the
information and the pending requests disturbs the executing one. -/
theorem background_of_eq (hexecuting : next.executingEsi = state.executingEsi)
    (horders : next.orders = state.orders)
    (hinquired : next.lastKeyInquired = state.lastKeyInquired)
    (hfinished : next.finishedEsiFlag = state.finishedEsiFlag)
    (houtstanding : next.outstanding = state.outstanding)
    (hexecution : next.gExecutionQueue = state.gExecutionQueue)
    (hconnected : next.connectedFds = state.connectedFds)
    (hflag : next.rescheduleFlag = true →
      state.rescheduleFlag = true ∨ config.algorithmIsPreemptive = true) :
    Background state next where
  executingEsi := hexecuting
  orders := horders
  lastKeyInquired := hinquired
  finishedEsiFlag := hfinished
  outstanding h := houtstanding.trans h
  execution h := hexecution.trans h
  single h := by
    rw [PlanificadorState.Single, hexecution, hexecuting, hconnected]
    exact h
  rescheduleFlag := hflag

theorem takeEsiAwayFromQueue_singleton (fd : ℤ) : takeEsiAwayFromQueue [fd] fd = [] := by
  simp [takeEsiAwayFromQueue]

theorem takeEsiAwayFromQueue_singleton_of_ne {other : ℤ} (hne : other ≠ fd) :
    takeEsiAwayFromQueue [other] fd = [other] := by
  simp [takeEsiAwayFromQueue, hne]

/-- The death of an ESI: the frame of a waking between two steps that take it
out of the execution queue and close its connection. -/
theorem background_sockMyPort (hsock : sockMyPort state fd = some next) :
    Background state next := by
  obtain ⟨-, released, hkeys, rfl⟩ := of_sockMyPort hsock
  have hwaking := waking_releaseKeys hkeys
  refine ⟨hwaking.executingEsi, hwaking.orders, hwaking.lastKeyInquired,
    hwaking.finishedEsiFlag, fun hnone => ?_, fun hnone => ?_, fun hsingle => ?_,
    hwaking.rescheduleFlag⟩
  · have hout : released.outstanding = [] := hwaking.outstanding.trans hnone
    simp [forgottenState, removeFd, endTurn, hout]
  · refine hwaking.gExecutionQueue.trans ?_
    simp [buriedState, takeEsiAwayFromQueue, hnone]
  · have hexec : (forgottenState released fd).gExecutionQueue =
        takeEsiAwayFromQueue state.gExecutionQueue fd := hwaking.gExecutionQueue
    have hexecuting : (forgottenState released fd).executingEsi = state.executingEsi :=
      hwaking.executingEsi
    rw [PlanificadorState.Single, hexec, hexecuting]
    obtain hempty | ⟨hone, hconnected⟩ := hsingle
    · exact .inl (by simp [hempty, takeEsiAwayFromQueue])
    · rw [hone]
      by_cases heq : state.executingEsi = fd
      · exact .inl (heq ▸ takeEsiAwayFromQueue_singleton _)
      · refine .inr ⟨takeEsiAwayFromQueue_singleton_of_ne heq, ?_⟩
        have hstill : released.connectedFds = state.connectedFds := hwaking.connectedFds
        exact List.mem_filter.mpr ⟨hstill ▸ hconnected, by simpa using heq⟩

theorem background_sockMyPorts {esis : List ℤ} (hsock : sockMyPorts state esis = some next) :
    Background state next :=
  PartialStep.foldlM_invariant (Background state)
    (fun hinv hstep => hinv.trans (background_sockMyPort hstep)) hsock (.refl state)

/-! ## Pending kills -/

/-- The ESIs that the pending kills are about, without one that has just finished. -/
def condemned (state : PlanificadorState config) : List ℤ :=
  if state.gNewKilledEsis.contains state.executingEsi && state.finishedEsiFlag then
    listRemoveByCondition state.gNewKilledEsis fun killedEsi => killedEsi = state.executingEsi
  else state.gNewKilledEsis

theorem of_burnEsiCorpses (hburn : burnEsiCorpses state state.executingEsi = some next) :
    ∃ burnt, sockMyPorts { state with gNewKilledEsis := condemned state } (condemned state) =
        some burnt ∧
      next = { burnt with gNewKilledEsis := [], killedEsiFlag := false } := by
  simp only [burnEsiCorpses] at hburn
  split at hburn
  · rename_i hspare
    obtain ⟨spared, hspared, hrest⟩ := Option.bind_eq_some_iff.mp hburn
    obtain ⟨logged, hlog, rfl⟩ := Option.map_eq_some_iff.mp hspared
    obtain ⟨rfl, -⟩ := of_logName hlog
    obtain ⟨burnt, hburnt, hrest⟩ := Option.bind_eq_some_iff.mp hrest
    refine ⟨burnt, ?_, (Option.some.inj hrest).symm⟩
    rw [condemned, if_pos hspare]
    exact hburnt
  · rename_i hspare
    obtain ⟨spared, hspared, hrest⟩ := Option.bind_eq_some_iff.mp hburn
    obtain rfl := Option.some.inj hspared
    obtain ⟨burnt, hburnt, hrest⟩ := Option.bind_eq_some_iff.mp hrest
    refine ⟨burnt, ?_, (Option.some.inj hrest).symm⟩
    rw [condemned, if_neg hspare]
    exact hburnt

theorem background_burnIfKilled (hburn : burnIfKilled state = some next) :
    Background state next := by
  simp only [burnIfKilled] at hburn
  split at hburn
  · obtain ⟨burnt, hburnt, rfl⟩ := of_burnEsiCorpses hburn
    have hspared : Background state { state with gNewKilledEsis := condemned state } :=
      background_of_eq rfl rfl rfl rfl rfl rfl rfl Or.inl
    have hlast : Background burnt { burnt with gNewKilledEsis := [], killedEsiFlag := false } :=
      background_of_eq rfl rfl rfl rfl rfl rfl rfl Or.inl
    exact (hspared.trans (background_sockMyPorts hburnt)).trans hlast
  · obtain rfl := Option.some.inj hburn
    exact .refl state

/-! ## Pending unlocks and requests -/

theorem of_unlockStored (hunlock : unlockStored state = some next) :
    (state.updateBlockedEsiQueueFlag = false ∧ next = state) ∨
      (state.updateBlockedEsiQueueFlag = true ∧ ∃ key unlocked, state.keyToUnlock = some key ∧
        updateBlockedEsiQueue state key .updateBlockedEsiQueue true = some unlocked ∧
        next = { unlocked with keyToUnlock := none }) := by
  simp only [unlockStored] at hunlock
  split at hunlock
  · obtain ⟨key, hkey, hrest⟩ := Option.bind_eq_some_iff.mp hunlock
    obtain ⟨unlocked, hupdate, hrest⟩ := Option.bind_eq_some_iff.mp hrest
    exact .inr ⟨‹_›, key, unlocked, hkey, hupdate, (Option.some.inj hrest).symm⟩
  · exact .inl ⟨by simp_all, (Option.some.inj hunlock).symm⟩

theorem background_unlockStored (hunlock : unlockStored state = some next) :
    Background state next := by
  obtain ⟨-, rfl⟩ | ⟨-, key, unlocked, -, hupdate, rfl⟩ := of_unlockStored hunlock
  · exact .refl _
  · have hlast : Background unlocked { unlocked with keyToUnlock := none } :=
      background_of_eq rfl rfl rfl rfl rfl rfl rfl Or.inl
    exact (waking_updateBlockedEsiQueue hupdate).background.trans hlast

/-- The loop over the keys that were unlocked by console. -/
theorem of_unlockByConsole (hunlock : unlockByConsole state = some next) :
    (state.unlockEsiByConsoleFlag = false ∧ next = state) ∨
      (state.unlockEsiByConsoleFlag = true ∧ ∃ unlocked,
        state.gLastUnlockedByConsoleKeys.foldlM
          (fun state key => updateBlockedEsiQueue state key .unlockEsiByConsole false) state =
            some unlocked ∧
        next = { unlocked with gLastUnlockedByConsoleKeys := [] }) := by
  simp only [unlockByConsole] at hunlock
  split at hunlock
  · obtain ⟨unlocked, hloop, hrest⟩ := Option.bind_eq_some_iff.mp hunlock
    exact .inr ⟨‹_›, unlocked, hloop, (Option.some.inj hrest).symm⟩
  · exact .inl ⟨by simp_all, (Option.some.inj hunlock).symm⟩

theorem waking_unlockByConsole (hunlock : unlockByConsole state = some next) :
    Waking state next := by
  obtain ⟨-, rfl⟩ | ⟨-, unlocked, hloop, rfl⟩ := of_unlockByConsole hunlock
  · exact .refl _
  · have hfold : Waking state unlocked := PartialStep.foldlM_invariant (Waking state)
      (fun hinv hstep => hinv.trans (waking_updateBlockedEsiQueue hstep)) hloop (.refl state)
    have hlast : Waking unlocked { unlocked with gLastUnlockedByConsoleKeys := [] } :=
      ⟨rfl, rfl, rfl, rfl, rfl, rfl, rfl, rfl, rfl, rfl, rfl, Or.inl⟩
    exact hfold.trans hlast

theorem background_updateNewEsiQueue (state : PlanificadorState config) :
    Background state (updateNewEsiQueue state) := by
  refine background_of_eq rfl rfl rfl rfl rfl rfl rfl fun hflag => ?_
  cases hpre : config.algorithmIsPreemptive with
  | false => exact .inl (by simpa [updateNewEsiQueue, hpre] using hflag)
  | true => exact .inr rfl

/-- The state after the ESI of a request has been blocked. -/
def blockedState (state : PlanificadorState config) (fromQueue : Queue)
    (request : EsiSexpectingKey) : PlanificadorState config :=
  endTurn
    (moveEsiFromAndToQueue
      { state with gEsisSexpectingKeys := state.gEsisSexpectingKeys ++ [request] }
      fromQueue .blocked request.esiFd) request.esiFd

/-- The state after the ESI of a request has taken the key. -/
def takenState (state : PlanificadorState config) (request : EsiSexpectingKey) :
    PlanificadorState config :=
  { state with gLockedKeys := state.gLockedKeys ++ [⟨request.key, request.esiFd⟩] }

theorem of_blockByConsole {fromQueue : Queue} {request : EsiSexpectingKey}
    (hblock : blockByConsole state fromQueue request = some next) :
    ∃ applied, next = { applied with
        gNewBlockedByConsoleEsis := listRemoveByCondition applied.gNewBlockedByConsoleEsis
          fun pending => pending.esiFd = request.esiFd } ∧
      request.esiFd ∈ applied.ids ∧
      ((determineIfKeyIsBlocked request.key state.gLockedKeys = true ∧
          applied = blockedState state fromQueue request) ∨
        (determineIfKeyIsBlocked request.key state.gLockedKeys = false ∧
          applied = takenState state request)) := by
  simp only [blockByConsole] at hblock
  split at hblock
  · obtain ⟨applied, hlog, hrest⟩ := Option.bind_eq_some_iff.mp hblock
    obtain ⟨rfl, hmem⟩ := of_logName hlog
    exact ⟨_, (Option.some.inj hrest).symm, hmem, .inl ⟨‹_›, rfl⟩⟩
  · obtain ⟨applied, hlog, hrest⟩ := Option.bind_eq_some_iff.mp hblock
    obtain ⟨rfl, hmem⟩ := of_logName hlog
    exact ⟨_, (Option.some.inj hrest).symm, hmem, .inr ⟨by simp_all, rfl⟩⟩

theorem background_blockByConsole {fromQueue : Queue} {request : EsiSexpectingKey}
    (hblock : blockByConsole state fromQueue request = some next)
    (hqueue : fromQueue = .ready ∨ fromQueue = .execution) : Background state next := by
  obtain ⟨applied, rfl, -, happlied⟩ := of_blockByConsole hblock
  have hlast : Background applied { applied with
      gNewBlockedByConsoleEsis := listRemoveByCondition applied.gNewBlockedByConsoleEsis
        fun pending => pending.esiFd = request.esiFd } :=
    background_of_eq rfl rfl rfl rfl rfl rfl rfl Or.inl
  refine Background.trans ?_ hlast
  obtain ⟨-, rfl⟩ | ⟨-, rfl⟩ := happlied
  · obtain rfl | rfl := hqueue
    · exact background_of_eq rfl rfl rfl rfl rfl rfl rfl Or.inl
    · refine ⟨rfl, rfl, rfl, rfl, id, fun hnone => ?_, fun hsingle => ?_, Or.inl⟩
      · simp [blockedState, moveEsiFromAndToQueue, PlanificadorState.setQueue,
          PlanificadorState.queue, takeEsiAwayFromQueue, endTurn, hnone]
      · have hexec : (blockedState state .execution request).gExecutionQueue =
            takeEsiAwayFromQueue state.gExecutionQueue request.esiFd := rfl
        obtain hempty | ⟨hone, hconnected⟩ := hsingle
        · exact .inl (by rw [hexec, hempty]; rfl)
        · by_cases heq : state.executingEsi = request.esiFd
          · exact .inl (by rw [hexec, hone, ← heq, takeEsiAwayFromQueue_singleton])
          · exact .inr ⟨by rw [hexec, hone, takeEsiAwayFromQueue_singleton_of_ne heq]; rfl,
              hconnected⟩
  · exact background_of_eq rfl rfl rfl rfl rfl rfl rfl Or.inl

theorem background_showEsiThatWasntBlocked (state : PlanificadorState config)
    (pending : EsiSexpectingKey) :
    Background state (showEsiThatWasntBlocked state pending) := by
  simp only [showEsiThatWasntBlocked]
  split
  · exact .refl state
  · split
    · exact .refl state
    · exact background_of_eq rfl rfl rfl rfl rfl rfl rfl Or.inl

theorem background_blockExecuting (hblock : blockExecuting state = some next) :
    Background state next := by
  simp only [blockExecuting] at hblock
  split at hblock
  · split at hblock
    · exact background_blockByConsole hblock (.inr rfl)
    · obtain rfl := Option.some.inj hblock
      exact .refl _
  · obtain rfl := Option.some.inj hblock
    exact .refl _

theorem background_blockReady {requests : List EsiSexpectingKey}
    (hblock : blockReady state requests = some next) : Background state next :=
  PartialStep.foldlM_invariant (Background state)
    (fun hinv hstep => hinv.trans (background_blockByConsole hstep (.inl rfl))) hblock
    (.refl state)

theorem background_foldl_showEsiThatWasntBlocked (state : PlanificadorState config)
    (pending : List EsiSexpectingKey) :
    Background state (pending.foldl showEsiThatWasntBlocked state) := by
  induction pending generalizing state with
  | nil => exact .refl state
  | cons request pending ih =>
      exact (background_showEsiThatWasntBlocked state request).trans (ih _)

theorem of_blockByConsoleProcedure (hblock : blockByConsoleProcedure state = some next) :
    ∃ first second, blockExecuting state = some first ∧
      blockReady first (readyRequests first) = some second ∧
      next = { second.gNewBlockedByConsoleEsis.foldl showEsiThatWasntBlocked second with
        gNewBlockedByConsoleEsis := [], blockEsiByConsoleFlag := false } := by
  obtain ⟨first, hfirst, hrest⟩ := Option.bind_eq_some_iff.mp hblock
  obtain ⟨second, hsecond, hrest⟩ := Option.bind_eq_some_iff.mp hrest
  exact ⟨first, second, hfirst, hsecond, (Option.some.inj hrest).symm⟩

theorem background_blockIfRequested (hblock : blockIfRequested state = some next) :
    Background state next := by
  simp only [blockIfRequested] at hblock
  split at hblock
  · obtain ⟨first, second, hfirst, hsecond, rfl⟩ := of_blockByConsoleProcedure hblock
    have hthird := background_foldl_showEsiThatWasntBlocked second second.gNewBlockedByConsoleEsis
    refine ((background_blockExecuting hfirst).trans (background_blockReady hsecond)).trans
      (hthird.trans ?_)
    exact background_of_eq rfl rfl rfl rfl rfl rfl rfl Or.inl
  · obtain rfl := Option.some.inj hblock
    exact .refl _

/-! ## The stages of the executing branch -/

/-- The code that the program goes on with. -/
def Received.result : Received → ExecutionResult
  | .code result => result
  | .failure garbage => garbage

theorem of_receiveExecutionResult {received : Received} {code : ExecutionResult}
    (hreceive : receiveExecutionResult state fd received = some (next, code)) :
    code = received.result ∧
      ((∃ result, received = .code result ∧ next = state) ∨
        (∃ garbage, received = .failure garbage ∧ sockMyPort state fd = some next)) := by
  cases received with
  | code result =>
      obtain ⟨rfl, rfl⟩ := Prod.mk.inj (Option.some.inj hreceive)
      exact ⟨rfl, .inl ⟨_, rfl, rfl⟩⟩
  | failure garbage =>
      obtain ⟨dead, hsock, hpair⟩ := Option.map_eq_some_iff.mp hreceive
      obtain ⟨rfl, rfl⟩ := Prod.mk.inj hpair
      exact ⟨rfl, .inr ⟨_, rfl, hsock⟩⟩

theorem background_receiveExecutionResult {received : Received} {code : ExecutionResult}
    (hreceive : receiveExecutionResult state fd received = some (next, code)) :
    Background state next := by
  obtain ⟨-, ⟨_, -, rfl⟩ | ⟨_, -, hsock⟩⟩ := of_receiveExecutionResult hreceive
  · exact .refl _
  · exact background_sockMyPort hsock

/-- The state in which the result of the executing ESI is read. -/
def answeredState (state : PlanificadorState config) : PlanificadorState config :=
  endTurn { state with
    outstanding := state.outstanding.filter fun other => other ≠ state.executingEsi }
    state.executingEsi

theorem of_receiveResult {result scriptEnd : Received}
    (hreceive : receiveResult state result scriptEnd = some next) :
    ∃ received, receiveExecutionResult (answeredState state) state.executingEsi result =
        some (received, result.result) ∧
      handleResult received state.executingEsi result.result scriptEnd = some next := by
  obtain ⟨⟨received, code⟩, hcode, hhandle⟩ := Option.bind_eq_some_iff.mp hreceive
  obtain rfl := (of_receiveExecutionResult hcode).1
  exact ⟨received, hcode, hhandle⟩

theorem rescheduleIfReady_eq (state : PlanificadorState config) :
    ∃ flag, rescheduleIfReady state = { state with rescheduleFlag := flag } := by
  simp only [rescheduleIfReady]
  split
  · exact ⟨_, rfl⟩
  · exact ⟨_, rfl⟩

/-- The result of a statement does not change who executes and who was told to. -/
theorem control_of_handleResult {result : ExecutionResult} {scriptEnd : Received}
    (hhandle : handleResult state fd result scriptEnd = some next) :
    next.executingEsi = state.executingEsi ∧ next.orders = state.orders := by
  cases result with
  | executionSuccess =>
      obtain ⟨logged, hlog, hrest⟩ := Option.bind_eq_some_iff.mp hhandle
      obtain ⟨rfl, -⟩ := of_logName hlog
      obtain ⟨⟨received, code⟩, hcode, hrest⟩ := Option.bind_eq_some_iff.mp hrest
      have hback := background_receiveExecutionResult hcode
      dsimp only at hrest
      split at hrest
      · obtain ⟨flag, hflag⟩ := rescheduleIfReady_eq { received with finishedEsiFlag := true }
        rw [← Option.some.inj hrest, hflag]
        exact ⟨hback.executingEsi, hback.orders⟩
      · rw [← Option.some.inj hrest]
        exact ⟨hback.executingEsi, hback.orders⟩
  | iAmBlocked =>
      obtain ⟨key, -, hrest⟩ := Option.bind_eq_some_iff.mp hhandle
      obtain ⟨estimated, hestimated, hrest⟩ := Option.bind_eq_some_iff.mp hrest
      obtain ⟨-, bursts, rfl, -⟩ := of_modifyInformation hestimated fun _ => rfl
      rw [← Option.some.inj hrest]
      simp only [rescheduleIfReady]
      split <;> exact ⟨rfl, rfl⟩
  | iBrokeTheLaw =>
      obtain ⟨logged, hlog, hrest⟩ := Option.bind_eq_some_iff.mp hhandle
      obtain ⟨rfl, -⟩ := of_logName hlog
      obtain ⟨dead, hdead, hrest⟩ := Option.bind_eq_some_iff.mp hrest
      have hback := background_sockMyPort hdead
      obtain ⟨flag, hflag⟩ := rescheduleIfReady_eq dead
      rw [← Option.some.inj hrest, hflag]
      exact ⟨hback.executingEsi, hback.orders⟩
  | finishedScript | didntFinishScript | other =>
      obtain rfl := Option.some.inj hhandle
      exact ⟨rfl, rfl⟩

theorem control_of_receiveResult {result scriptEnd : Received}
    (hreceive : receiveResult state result scriptEnd = some next) :
    next.executingEsi = state.executingEsi ∧ next.orders = state.orders := by
  obtain ⟨received, hcode, hhandle⟩ := of_receiveResult hreceive
  obtain ⟨hexecuting, horders⟩ := control_of_handleResult hhandle
  have hback := background_receiveExecutionResult hcode
  exact ⟨hexecuting.trans hback.executingEsi, horders.trans hback.orders⟩

theorem of_settleResult {result scriptEnd : Received}
    (hsettle : settleResult state result scriptEnd = some next) :
    ∃ received burnt, receiveResult state result scriptEnd = some received ∧
      burnIfKilled received = some burnt ∧
      ((burnt.finishedEsiFlag = true ∧ finishScript burnt = some next) ∨
        (burnt.finishedEsiFlag = false ∧ updateQueues burnt = some next)) := by
  obtain ⟨received, hreceive, hrest⟩ := Option.bind_eq_some_iff.mp hsettle
  obtain ⟨burnt, hburn, hrest⟩ := Option.bind_eq_some_iff.mp hrest
  refine ⟨received, burnt, hreceive, hburn, ?_⟩
  split at hrest
  · exact .inl ⟨‹_›, hrest⟩
  · exact .inr ⟨by simp_all, hrest⟩

theorem of_finishScript (hfinish : finishScript state = some next) :
    ∃ released key, releaseResources state state.executingEsi = some released ∧
      next = { moveEsiFromAndToQueue { released with keyToUnlock := key } .execution .finished
        state.executingEsi with executingEsi := -1 } := by
  obtain ⟨logged, hlog, hrest⟩ := Option.bind_eq_some_iff.mp hfinish
  obtain ⟨rfl, -⟩ := of_logName hlog
  obtain ⟨released, hrelease, hrest⟩ := Option.bind_eq_some_iff.mp hrest
  split at hrest
  · obtain ⟨freed, hfreed, hrest⟩ := Option.bind_eq_some_iff.mp hrest
    obtain ⟨_, -, rfl⟩ := Option.map_eq_some_iff.mp hfreed
    exact ⟨released, _, hrelease, (Option.some.inj hrest).symm⟩
  · exact ⟨released, released.keyToUnlock, hrelease, (Option.some.inj hrest).symm⟩

/-- The pending updates; `renews` says when the new ESIs become ready. -/
def pendingUpdates (renews : PlanificadorState config → Bool)
    (state : PlanificadorState config) : Option (PlanificadorState config) := do
  let stored ← unlockStored state
  let unlocked ← unlockByConsole stored
  blockIfRequested (if renews unlocked then updateNewEsiQueue unlocked else unlocked)

theorem of_pendingUpdates {renews : PlanificadorState config → Bool}
    (hupdates : pendingUpdates renews state = some next) :
    ∃ stored unlocked, unlockStored state = some stored ∧
      unlockByConsole stored = some unlocked ∧
      blockIfRequested (if renews unlocked then updateNewEsiQueue unlocked else unlocked) =
        some next := by
  obtain ⟨stored, hstored, hrest⟩ := Option.bind_eq_some_iff.mp hupdates
  obtain ⟨unlocked, hunlocked, hrest⟩ := Option.bind_eq_some_iff.mp hrest
  exact ⟨stored, unlocked, hstored, hunlocked, hrest⟩

theorem background_pendingUpdates {renews : PlanificadorState config → Bool}
    (hupdates : pendingUpdates renews state = some next) : Background state next := by
  obtain ⟨stored, unlocked, hstored, hunlocked, hblocked⟩ := of_pendingUpdates hupdates
  refine (background_unlockStored hstored).trans
    ((waking_unlockByConsole hunlocked).background.trans ?_)
  split at hblocked
  · exact (background_updateNewEsiQueue unlocked).trans (background_blockIfRequested hblocked)
  · exact background_blockIfRequested hblocked

/-- Whether something is pending that is looked at after a statement. -/
def updatesDue (state : PlanificadorState config) : Bool :=
  state.updateBlockedEsiQueueFlag || state.newEsiFlag || state.unlockEsiByConsoleFlag

/-- The updates after a statement that was not the last one. -/
theorem of_updateQueues (hupdate : updateQueues state = some next) :
    (updatesDue state = false ∧ next = state) ∨
      (updatesDue state = true ∧ ∃ updated,
        pendingUpdates PlanificadorState.newEsiFlag state = some updated ∧
        next = preempt updated) := by
  simp only [updateQueues] at hupdate
  split at hupdate
  · rename_i hdue
    obtain ⟨stored, hstored, hrest⟩ := Option.bind_eq_some_iff.mp hupdate
    obtain ⟨unlocked, hunlocked, hrest⟩ := Option.bind_eq_some_iff.mp hrest
    obtain ⟨updated, hblocked, hrest⟩ := Option.bind_eq_some_iff.mp hrest
    refine .inr ⟨hdue, updated, ?_, (Option.some.inj hrest).symm⟩
    simp only [pendingUpdates, hstored, hunlocked, Option.bind_eq_bind, Option.bind_some]
    exact hblocked
  · rename_i hdue
    exact .inl ⟨Bool.eq_false_iff.mpr hdue, (Option.some.inj hupdate).symm⟩

/-! ## The choice of an ESI -/

theorem perm_of_sortReadyQueue {comparator : ℤ → ℤ → Bool}
    (hsort : sortReadyQueue state comparator = some next) :
    ∃ ready, ready.Perm state.gReadyQueue ∧ next = { state with gReadyQueue := ready } := by
  simp only [sortReadyQueue] at hsort
  split at hsort
  · exact ⟨_, config.sort.perm _ _, (Option.some.inj hsort).symm⟩
  · cases hsort

/-- The ESI selected is registered and ready, and the ready queue is rearranged. -/
theorem perm_of_scheduleEsis {scheduled : PlanificadorState config}
    (hschedule : scheduleEsis state = some (scheduled, fd)) :
    ∃ ready, ready.Perm state.gReadyQueue ∧ fd ∈ ready ∧ fd ∈ state.ids ∧
      scheduled = { state with gReadyQueue := ready } := by
  have hpick : ∀ sorted : PlanificadorState config,
      (∃ ready, ready.Perm state.gReadyQueue ∧ sorted = { state with gReadyQueue := ready }) →
      (sorted.gReadyQueue.head?.bind fun esiFd =>
        (logName sorted esiFd).bind fun logged => some (logged, esiFd)) = some (scheduled, fd) →
      ∃ ready, ready.Perm state.gReadyQueue ∧ fd ∈ ready ∧ fd ∈ state.ids ∧
        scheduled = { state with gReadyQueue := ready } := by
    rintro _ ⟨ready, hperm, rfl⟩ hrest
    obtain ⟨head, hhead, hrest⟩ := Option.bind_eq_some_iff.mp hrest
    obtain ⟨logged, hlog, hrest⟩ := Option.bind_eq_some_iff.mp hrest
    obtain ⟨rfl, hids⟩ := of_logName hlog
    obtain ⟨rfl, rfl⟩ := Prod.mk.inj (Option.some.inj hrest)
    exact ⟨ready, hperm, List.mem_of_head? hhead, hids, rfl⟩
  simp only [scheduleEsis] at hschedule
  split at hschedule
  · exact hpick state ⟨_, .refl _, rfl⟩ hschedule
  all_goals
    obtain ⟨sorted, hsorted, hrest⟩ := Option.bind_eq_some_iff.mp hschedule
    exact hpick sorted (perm_of_sortReadyQueue hsorted) hrest

/-! ## The states in which an ESI is chosen -/

/-- The state in which the next ESI is chosen after a result. -/
def choiceState (state : PlanificadorState config) (result scriptEnd : Received)
    (meanwhile : List Command) : Option (PlanificadorState config) := do
  let settled ← settleResult state result scriptEnd
  let resumed ← waitWhilePaused { settled with finishedEsiFlag := false } meanwhile
  some (updateWaitingTimeOfReadyEsis resumed)

theorem of_choiceState {result scriptEnd : Received} {meanwhile : List Command}
    (hchoice : choiceState state result scriptEnd meanwhile = some next) :
    ∃ settled resumed, settleResult state result scriptEnd = some settled ∧
      waitWhilePaused { settled with finishedEsiFlag := false } meanwhile = some resumed ∧
      next = updateWaitingTimeOfReadyEsis resumed := by
  obtain ⟨settled, hsettle, hrest⟩ := Option.bind_eq_some_iff.mp hchoice
  obtain ⟨resumed, hresumed, hrest⟩ := Option.bind_eq_some_iff.mp hrest
  exact ⟨settled, resumed, hsettle, hresumed, (Option.some.inj hrest).symm⟩

/-- The branch of the executing ESI ends with a choice. -/
theorem of_executingEsiBranch {result scriptEnd : Received} {meanwhile : List Command}
    {unreachable : List ℤ}
    (hbranch : executingEsiBranch state result scriptEnd meanwhile unreachable = some next) :
    state.executingEsi ∈ state.connectedFds ∧ ∃ choice,
      choiceState state result scriptEnd meanwhile = some choice ∧
      chooseNext choice unreachable = some next := by
  simp only [executingEsiBranch] at hbranch
  split at hbranch
  · rename_i hconnected
    obtain ⟨settled, hsettle, hrest⟩ := Option.bind_eq_some_iff.mp hbranch
    obtain ⟨resumed, hresumed, hchoose⟩ := Option.bind_eq_some_iff.mp hrest
    refine ⟨by simpa using hconnected, _, ?_, hchoose⟩
    simp only [choiceState, hsettle, hresumed, Option.bind_eq_bind, Option.bind_some]
  · cases hbranch

/-- Whether there are new ESIs at the end of a turn. -/
def renewsWhenIdle (state : PlanificadorState config) : Bool :=
  state.newEsiFlag && !state.gNewQueue.isEmpty

/-- The state in which an ESI is chosen at the end of a turn. -/
def idleState (state : PlanificadorState config) : Option (PlanificadorState config) :=
  (burnIfKilled state).bind (pendingUpdates renewsWhenIdle)

theorem background_idleState (hidle : idleState state = some next) : Background state next := by
  obtain ⟨burnt, hburn, hupdates⟩ := Option.bind_eq_some_iff.mp hidle
  exact (background_burnIfKilled hburn).trans (background_pendingUpdates hupdates)

/-- The end of a turn does nothing while an ESI executes; otherwise it ends with a
choice when some ESI is ready. -/
theorem of_endOfTurn {unreachable : List ℤ} (hturn : endOfTurn state unreachable = some next) :
    ((state.gExecutionQueue.isEmpty && !state.schedulerPausedFlag) = false ∧ next = state) ∨
      ((state.gExecutionQueue.isEmpty && !state.schedulerPausedFlag) = true ∧
        ∃ idle, idleState state = some idle ∧
          ((idle.gReadyQueue.isEmpty = true ∧ next = idle) ∨
            (idle.gReadyQueue.isEmpty = false ∧ reschedule unreachable idle = some next))) := by
  simp only [endOfTurn] at hturn
  split at hturn
  · rename_i hquiet
    obtain ⟨burnt, hburn, hrest⟩ := Option.bind_eq_some_iff.mp hturn
    obtain ⟨stored, hstored, hrest⟩ := Option.bind_eq_some_iff.mp hrest
    obtain ⟨unlocked, hunlocked, hrest⟩ := Option.bind_eq_some_iff.mp hrest
    obtain ⟨idle, hblocked, hrest⟩ := Option.bind_eq_some_iff.mp hrest
    refine .inr ⟨hquiet, idle, ?_, ?_⟩
    · simp only [idleState, pendingUpdates, hburn, hstored, hunlocked, Option.bind_eq_bind,
        Option.bind_some]
      exact hblocked
    · split at hrest
      · exact .inl ⟨‹_›, (Option.some.inj hrest).symm⟩
      · exact .inr ⟨Bool.eq_false_iff.mpr ‹_›, hrest⟩
  · exact .inl ⟨Bool.eq_false_iff.mpr ‹_›, (Option.some.inj hturn).symm⟩

/-! ## Commands and pauses -/

theorem executeCommand_eq (state : PlanificadorState config) (command : Command) :
    ∃ blocked killed unlocked killedFlag paused blockFlag unlockFlag,
      executeCommand state command = { state with
        gNewBlockedByConsoleEsis := blocked
        gNewKilledEsis := killed
        gLastUnlockedByConsoleKeys := unlocked
        killedEsiFlag := killedFlag
        schedulerPausedFlag := paused
        blockEsiByConsoleFlag := blockFlag
        unlockEsiByConsoleFlag := unlockFlag } := by
  cases command with
  | pausar | continuar | bloquear | desbloquear => exact ⟨_, _, _, _, _, _, _, rfl⟩
  | kill pid =>
      simp only [executeCommand]
      split
      · exact ⟨_, _, _, _, _, _, _, rfl⟩
      · exact ⟨_, _, _, _, _, _, _, rfl⟩

/-- Commands do not touch what executes. -/
theorem background_executeCommand (state : PlanificadorState config) (command : Command) :
    Background state (executeCommand state command) := by
  obtain ⟨_, _, _, _, _, _, _, heq⟩ := executeCommand_eq state command
  rw [heq]
  exact background_of_eq rfl rfl rfl rfl rfl rfl rfl Or.inl

theorem background_foldl_executeCommand (state : PlanificadorState config)
    (commands : List Command) : Background state (commands.foldl executeCommand state) := by
  induction commands generalizing state with
  | nil => exact .refl state
  | cons command commands ih => exact (background_executeCommand state command).trans (ih _)

theorem of_waitWhilePaused {meanwhile : List Command}
    (hwait : waitWhilePaused state meanwhile = some next) :
    ∃ commands : List Command, next = commands.foldl executeCommand state := by
  simp only [waitWhilePaused] at hwait
  split at hwait
  · split at hwait
    · cases hwait
    · exact ⟨meanwhile, (Option.some.inj hwait).symm⟩
  · exact ⟨[], (Option.some.inj hwait).symm⟩

theorem background_waitWhilePaused {meanwhile : List Command}
    (hwait : waitWhilePaused state meanwhile = some next) : Background state next := by
  obtain ⟨commands, rfl⟩ := of_waitWhilePaused hwait
  exact background_foldl_executeCommand state commands

/-! ## New clients -/

/-- What a new client leaves as it was: the socket is new, and it is open when the
handshake succeeds. -/
structure Admission (state next : PlanificadorState config) (fd : ℤ) (handshake : Bool) :
    Prop where
  fresh : fd ∉ state.connectedFds
  connectedFds : next.connectedFds =
    if handshake then state.connectedFds ++ [fd] else state.connectedFds
  ids : next.ids = state.ids ++ [fd]
  gLockedKeys : next.gLockedKeys = state.gLockedKeys
  gExecutionQueue : next.gExecutionQueue = state.gExecutionQueue
  lastKeyInquired : next.lastKeyInquired = state.lastKeyInquired
  orders : next.orders = state.orders

theorem admission_newClient {handshake : Bool}
    (hclient : newClient state fd handshake = some next) :
    Admission state next fd handshake := by
  simp only [newClient] at hclient
  split at hclient
  · cases hclient
  · rename_i hfree
    have hfresh : fd ∉ state.connectedFds := fun hmem => hfree (by simp [hmem])
    rw [← Option.some.inj hclient]
    cases handshake with
    | true => exact ⟨hfresh, rfl, List.map_append, rfl, rfl, rfl, rfl⟩
    | false =>
        refine ⟨hfresh, ?_, List.map_append, rfl, rfl, rfl, rfl⟩
        have hnone : ∀ other ∈ state.connectedFds, other ≠ fd := fun other hmem heq =>
          hfresh (heq ▸ hmem)
        simpa [removeFd, endTurn, List.filter_append] using hnone

/-! ## The coordinator -/

theorem of_semWait (hwait : semWait state = some next) :
    ∃ count, next = { state with mutexCoordinador := count } := by
  simp only [semWait] at hwait
  split at hwait
  · cases hwait
  · exact ⟨_, (Option.some.inj hwait).symm⟩

/-- A message of the coordinator changes the keys and the memory of what the
coordinator asked. -/
theorem of_coordinatorBranch {message : CoordinatorMessage} {answer : Option CoordinatorAnswer}
    (hbranch : coordinatorBranch state message = some (next, answer)) :
    ∃ locked inquired unlock flag count, next = { state with
        gLockedKeys := locked
        lastKeyInquired := inquired
        keyToUnlock := unlock
        updateBlockedEsiQueueFlag := flag
        mutexCoordinador := count } := by
  cases message with
  | isThisKeyBlocked key =>
      obtain ⟨entered, hwait, hrest⟩ := Option.bind_eq_some_iff.mp hbranch
      obtain ⟨count, rfl⟩ := of_semWait hwait
      dsimp only at hrest
      split at hrest
      · obtain ⟨rfl, -⟩ := Prod.mk.inj (Option.some.inj hrest)
        exact ⟨_, _, _, _, _, rfl⟩
      · obtain ⟨rfl, -⟩ := Prod.mk.inj (Option.some.inj hrest)
        exact ⟨_, _, _, _, _, rfl⟩
  | isKeyBlockedByExecutingEsi =>
      obtain ⟨key, -, hrest⟩ := Option.bind_eq_some_iff.mp hbranch
      obtain ⟨response, -, hrest⟩ := Option.bind_eq_some_iff.mp hrest
      split at hrest
      · obtain ⟨rfl, -⟩ := Prod.mk.inj (Option.some.inj hrest)
        exact ⟨_, _, _, _, _, rfl⟩
      · obtain ⟨rfl, -⟩ := Prod.mk.inj (Option.some.inj hrest)
        exact ⟨_, _, _, _, _, rfl⟩
  | blockKey =>
      obtain ⟨entered, hwait, hrest⟩ := Option.bind_eq_some_iff.mp hbranch
      obtain ⟨count, rfl⟩ := of_semWait hwait
      obtain ⟨key, -, hrest⟩ := Option.bind_eq_some_iff.mp hrest
      obtain ⟨blocked, hadd, hrest⟩ := Option.bind_eq_some_iff.mp hrest
      obtain ⟨rfl, -⟩ := Prod.mk.inj (Option.some.inj hrest)
      simp only [addNewKeyBlocker] at hadd
      split at hadd
      · rw [← Option.some.inj hadd]
        exact ⟨_, _, _, _, _, rfl⟩
      · cases hadd
  | unlockKey key =>
      obtain ⟨entered, hwait, hrest⟩ := Option.bind_eq_some_iff.mp hbranch
      obtain ⟨count, rfl⟩ := of_semWait hwait
      obtain ⟨rfl, -⟩ := Prod.mk.inj (Option.some.inj hrest)
      exact ⟨_, _, _, _, _, rfl⟩
  | keyStatus =>
      obtain ⟨entered, hwait, hrest⟩ := Option.bind_eq_some_iff.mp hbranch
      obtain ⟨count, rfl⟩ := of_semWait hwait
      obtain ⟨rfl, -⟩ := Prod.mk.inj (Option.some.inj hrest)
      exact ⟨_, _, _, _, _, rfl⟩

end SockMyPort.Planificador
