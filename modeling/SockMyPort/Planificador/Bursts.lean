/-
# What the estimations are made of

`next_estimated_burst_sjf` revises the estimation of an ESI when it reports that it is
blocked, and `update_executing_esi` counts the statements that it is told to execute. Nothing
else touches these two figures: not a preemption, a request of the console, a waking or the
death of another ESI. So both are functions of what goes through the socket of the ESI since
it connected, which an observer can write down without looking at the scheduler.
-/

import SockMyPort.Library.BurstHistory
import SockMyPort.Planificador.PendingKills
import SockMyPort.Planificador.ReadyLine
import SockMyPort.Planificador.Scheduling

namespace SockMyPort.Planificador

open SockMyPort.Commons Library

variable {config : Config} {state next : PlanificadorState config} {fd : ℤ}

/-! ## Figures -/

/-- The socket of an ESI with the two figures that its bursts determine. -/
def EsiInformation.figures (information : EsiInformation config) :
    ℤ × config.arithmetic.Float × ℤ :=
  (information.esiId, information.lastEstimatedBurst, information.lastRealBurst)

/-- The figures of all registered ESIs. -/
def PlanificadorState.figures (state : PlanificadorState config) :
    List (ℤ × config.arithmetic.Float × ℤ) :=
  state.gEsiBursts.map EsiInformation.figures

theorem map_fst_figures (state : PlanificadorState config) :
    state.figures.map Prod.fst = state.ids := by
  rw [PlanificadorState.figures, List.map_map]
  rfl

theorem map_figures_updateInformation {update : EsiInformation config → EsiInformation config}
    (hsame : ∀ information, (update information).figures = information.figures)
    (bursts : List (EsiInformation config)) (fd : ℤ) :
    (updateInformation fd update bursts).map EsiInformation.figures =
      bursts.map EsiInformation.figures := by
  induction bursts with
  | nil => rfl
  | cons information bursts ih =>
      simp only [updateInformation]
      split
      · rw [List.map_cons, List.map_cons, hsame]
      · rw [List.map_cons, List.map_cons, ih]

/-- Only the information of the ESI is changed, when every socket is registered once. -/
theorem of_mem_updateInformation {update : EsiInformation config → EsiInformation config}
    {bursts : List (EsiInformation config)} {changed : EsiInformation config}
    (hdistinct : (bursts.map EsiInformation.esiId).Nodup)
    (hmem : changed ∈ updateInformation fd update bursts) :
    (changed ∈ bursts ∧ changed.esiId ≠ fd) ∨
      ∃ information ∈ bursts, information.esiId = fd ∧ changed = update information := by
  induction bursts with
  | nil => cases hmem
  | cons information bursts ih =>
      obtain ⟨hnot, hrest⟩ := List.nodup_cons.mp hdistinct
      simp only [updateInformation] at hmem
      split at hmem
      · rename_i hsame
        rcases List.mem_cons.mp hmem with rfl | hlater
        · exact .inr ⟨information, List.mem_cons_self, hsame, rfl⟩
        · refine .inl ⟨List.mem_cons_of_mem _ hlater, fun hother => hnot ?_⟩
          rw [hsame, ← hother]
          exact List.mem_map_of_mem hlater
      · rename_i hother
        rcases List.mem_cons.mp hmem with rfl | hlater
        · exact .inl ⟨List.mem_cons_self, hother⟩
        · obtain ⟨hlater, hne⟩ | ⟨found, hfound, hsame, heq⟩ := ih hrest hlater
          · exact .inl ⟨List.mem_cons_of_mem _ hlater, hne⟩
          · exact .inr ⟨found, List.mem_cons_of_mem _ hfound, hsame, heq⟩

/-! ## Between a result and a choice -/

/-- What holds of everything between the reading of a result and the next choice: nobody is
told to execute or starts to, and with a preemptive algorithm nobody becomes ready unless
another choice is due. -/
structure Settling (state next : PlanificadorState config) : Prop where
  orders : next.orders = state.orders
  execution : next.gExecutionQueue ⊆ state.gExecutionQueue
  ready : config.algorithmIsPreemptive = true → next.rescheduleFlag = false →
    state.rescheduleFlag = false ∧ next.gReadyQueue ⊆ state.gReadyQueue

/-- What, in addition, leaves the figures of all ESIs that stay. -/
structure Undisturbed (state next : PlanificadorState config) : Prop extends
    Settling state next where
  figures : next.figures.Sublist state.figures

@[refl]
theorem Settling.refl (state : PlanificadorState config) : Settling state state :=
  ⟨rfl, List.Subset.refl _, fun _ hflag => ⟨hflag, List.Subset.refl _⟩⟩

theorem Settling.trans {middle : PlanificadorState config} (hfirst : Settling state middle)
    (hsecond : Settling middle next) : Settling state next where
  orders := hsecond.orders.trans hfirst.orders
  execution := List.Subset.trans hsecond.execution hfirst.execution
  ready hpre hflag :=
    have hlater := hsecond.ready hpre hflag
    have hearlier := hfirst.ready hpre hlater.1
    ⟨hearlier.1, List.Subset.trans hlater.2 hearlier.2⟩

namespace Undisturbed

@[refl]
theorem refl (state : PlanificadorState config) : Undisturbed state state :=
  ⟨.refl state, .refl _⟩

theorem trans {middle : PlanificadorState config} (hfirst : Undisturbed state middle)
    (hsecond : Undisturbed middle next) : Undisturbed state next :=
  ⟨hfirst.toSettling.trans hsecond.toSettling, hsecond.figures.trans hfirst.figures⟩

/-- ESIs leave queues and the program at most. -/
theorem of_subset (horders : next.orders = state.orders)
    (hexecution : next.gExecutionQueue ⊆ state.gExecutionQueue)
    (hready : next.gReadyQueue ⊆ state.gReadyQueue)
    (hflag : next.rescheduleFlag = false → state.rescheduleFlag = false)
    (hfigures : next.figures.Sublist state.figures) : Undisturbed state next :=
  ⟨⟨horders, hexecution, fun _ hquiet => ⟨hflag hquiet, hready⟩⟩, hfigures⟩

/-- Nothing changes that the choice looks at. -/
theorem of_eq (horders : next.orders = state.orders)
    (hexecution : next.gExecutionQueue = state.gExecutionQueue)
    (hready : next.gReadyQueue = state.gReadyQueue)
    (hflag : next.rescheduleFlag = false → state.rescheduleFlag = false)
    (hfigures : next.figures = state.figures) : Undisturbed state next :=
  .of_subset horders (hexecution ▸ List.Subset.refl _) (hready ▸ List.Subset.refl _) hflag
    (hfigures ▸ .refl _)

/-- Whoever becomes ready makes another choice due. -/
theorem of_due (horders : next.orders = state.orders)
    (hexecution : next.gExecutionQueue ⊆ state.gExecutionQueue)
    (hdue : config.algorithmIsPreemptive = true → next.rescheduleFlag = true)
    (hfigures : next.figures.Sublist state.figures) : Undisturbed state next := by
  refine ⟨⟨horders, hexecution, fun hpre hflag => ?_⟩, hfigures⟩
  rw [hdue hpre] at hflag
  cases hflag

end Undisturbed

theorem takeEsiAwayFromQueue_subset (queue : List ℤ) (fd : ℤ) :
    takeEsiAwayFromQueue queue fd ⊆ queue := (takeEsiAwayFromQueue_sublist queue fd).subset

theorem undisturbed_updateBlockedEsiQueue {key : CString} {flag : UnblockFlag} {wasAStore : Bool}
    (hupdate : updateBlockedEsiQueue state key flag wasAStore = some next) :
    Undisturbed state next := by
  have hclear (cleared : PlanificadorState config) : Undisturbed cleared (cleared.clear flag) := by
    cases flag <;> exact .of_eq rfl rfl rfl id rfl
  obtain ⟨-, rfl⟩ | ⟨-, -, rfl⟩ := of_updateBlockedEsiQueue hupdate
  · have hfreed : Undisturbed state (freedState state key) := .of_eq rfl rfl rfl id rfl
    exact hfreed.trans (hclear _)
  · refine .trans ?_ (hclear (wokenState state key wasAStore _))
    exact .of_due rfl (List.Subset.refl _) (fun hpre => by simp [wokenState, hpre]) (.refl _)

theorem undisturbed_releaseKeys {keys : List CString}
    (hkeys : releaseKeys state keys = some next) : Undisturbed state next :=
  PartialStep.foldlM_invariant (Undisturbed state)
    (fun hinv hstep => hinv.trans (undisturbed_updateBlockedEsiQueue hstep)) hkeys (.refl state)

theorem undisturbed_forgottenState (state : PlanificadorState config) (fd : ℤ) :
    Undisturbed state (forgottenState state fd) :=
  .of_subset rfl (List.Subset.refl _) (List.Subset.refl _) id (List.eraseP_sublist.map _)

theorem undisturbed_releaseResources (hrelease : releaseResources state fd = some next) :
    Undisturbed state next := by
  obtain ⟨-, released, hkeys, rfl⟩ := of_releaseResources hrelease
  exact (undisturbed_releaseKeys hkeys).trans (undisturbed_forgottenState released fd)

theorem undisturbed_sockMyPort (hsock : sockMyPort state fd = some next) :
    Undisturbed state next := by
  obtain ⟨-, released, hkeys, rfl⟩ := of_sockMyPort hsock
  have hburied : Undisturbed state
      (buriedState state fd (state.gFinishedQueue ++ burials state fd)) :=
    .of_subset rfl (takeEsiAwayFromQueue_subset _ _) (takeEsiAwayFromQueue_subset _ _) id
      (.refl _)
  exact (hburied.trans (undisturbed_releaseKeys hkeys)).trans
    (undisturbed_forgottenState released fd)

theorem undisturbed_burnIfKilled (hburn : burnIfKilled state = some next) :
    Undisturbed state next := by
  simp only [burnIfKilled] at hburn
  split at hburn
  · obtain ⟨burnt, hburnt, rfl⟩ := of_burnEsiCorpses hburn
    have hspared : Undisturbed state { state with gNewKilledEsis := condemned state } :=
      .of_eq rfl rfl rfl id rfl
    have hloop := PartialStep.foldlM_invariant
      (Undisturbed { state with gNewKilledEsis := condemned state })
      (fun hinv hstep => hinv.trans (undisturbed_sockMyPort hstep)) hburnt (.refl _)
    have hlast : Undisturbed burnt
        { burnt with gNewKilledEsis := [], killedEsiFlag := false } := .of_eq rfl rfl rfl id rfl
    exact (hspared.trans hloop).trans hlast
  · obtain rfl := Option.some.inj hburn
    rfl

theorem undisturbed_unlockStored (hunlock : unlockStored state = some next) :
    Undisturbed state next := by
  obtain ⟨-, rfl⟩ | ⟨-, key, unlocked, -, hupdate, rfl⟩ := of_unlockStored hunlock
  · rfl
  · have hlast : Undisturbed unlocked { unlocked with keyToUnlock := none } :=
      .of_eq rfl rfl rfl id rfl
    exact (undisturbed_updateBlockedEsiQueue hupdate).trans hlast

theorem undisturbed_unlockByConsole (hunlock : unlockByConsole state = some next) :
    Undisturbed state next := by
  obtain ⟨-, rfl⟩ | ⟨-, unlocked, hloop, rfl⟩ := of_unlockByConsole hunlock
  · rfl
  · have hfold := PartialStep.foldlM_invariant (Undisturbed state)
      (fun hinv hstep => hinv.trans (undisturbed_updateBlockedEsiQueue hstep)) hloop (.refl state)
    have hlast : Undisturbed unlocked { unlocked with gLastUnlockedByConsoleKeys := [] } :=
      .of_eq rfl rfl rfl id rfl
    exact hfold.trans hlast

theorem undisturbed_blockByConsole {fromQueue : Queue} {request : EsiSexpectingKey}
    (hqueue : fromQueue = .ready ∨ fromQueue = .execution)
    (hblock : blockByConsole state fromQueue request = some next) : Undisturbed state next := by
  obtain ⟨applied, rfl, -, happlied⟩ := of_blockByConsole hblock
  have hlast : Undisturbed applied { applied with
      gNewBlockedByConsoleEsis := listRemoveByCondition applied.gNewBlockedByConsoleEsis
        fun pending => pending.esiFd = request.esiFd } := .of_eq rfl rfl rfl id rfl
  refine .trans ?_ hlast
  obtain ⟨-, rfl⟩ | ⟨-, rfl⟩ := happlied
  · obtain rfl | rfl := hqueue
    · exact .of_subset rfl (List.Subset.refl _) (takeEsiAwayFromQueue_subset _ _) id (.refl _)
    · exact .of_subset rfl (takeEsiAwayFromQueue_subset _ _) (List.Subset.refl _) id (.refl _)
  · exact .of_eq rfl rfl rfl id rfl

theorem undisturbed_blockExecuting (hblock : blockExecuting state = some next) :
    Undisturbed state next := by
  simp only [blockExecuting] at hblock
  split at hblock
  · split at hblock
    · exact undisturbed_blockByConsole (.inr rfl) hblock
    · obtain rfl := Option.some.inj hblock
      rfl
  · obtain rfl := Option.some.inj hblock
    rfl

theorem undisturbed_blockReady {requests : List EsiSexpectingKey}
    (hblock : blockReady state requests = some next) : Undisturbed state next :=
  PartialStep.foldlM_invariant (Undisturbed state)
    (fun hinv hstep => hinv.trans (undisturbed_blockByConsole (.inl rfl) hstep)) hblock
    (.refl state)

theorem undisturbed_foldl_showEsiThatWasntBlocked (state : PlanificadorState config)
    (pending : List EsiSexpectingKey) :
    Undisturbed state (pending.foldl showEsiThatWasntBlocked state) := by
  induction pending generalizing state with
  | nil => exact .refl state
  | cons request pending ih =>
      have hshown : Undisturbed state (showEsiThatWasntBlocked state request) := by
        simp only [showEsiThatWasntBlocked]
        split
        · rfl
        · split
          · rfl
          · exact .of_eq rfl rfl rfl id rfl
      exact hshown.trans (ih _)

theorem undisturbed_blockIfRequested (hblock : blockIfRequested state = some next) :
    Undisturbed state next := by
  simp only [blockIfRequested] at hblock
  split at hblock
  · obtain ⟨first, second, hfirst, hsecond, rfl⟩ := of_blockByConsoleProcedure hblock
    have hboth := (undisturbed_blockExecuting hfirst).trans (undisturbed_blockReady hsecond)
    have hshown := hboth.trans
      (undisturbed_foldl_showEsiThatWasntBlocked second second.gNewBlockedByConsoleEsis)
    exact hshown.trans (.of_eq rfl rfl rfl id rfl)
  · obtain rfl := Option.some.inj hblock
    rfl

theorem undisturbed_pendingUpdates {renews : PlanificadorState config → Bool}
    (hupdates : pendingUpdates renews state = some next) : Undisturbed state next := by
  obtain ⟨stored, unlocked, hstored, hunlocked, hblocked⟩ := of_pendingUpdates hupdates
  have hrenewed : Undisturbed unlocked
      (if renews unlocked then updateNewEsiQueue unlocked else unlocked) := by
    split
    · exact .of_due rfl (List.Subset.refl _) (fun hpre => by simp [updateNewEsiQueue, hpre])
        (.refl _)
    · rfl
  have hboth := (undisturbed_unlockStored hstored).trans (undisturbed_unlockByConsole hunlocked)
  exact (hboth.trans hrenewed).trans (undisturbed_blockIfRequested hblocked)

/-- An ESI is preempted only when another choice is due. -/
theorem undisturbed_preempt (state : PlanificadorState config) :
    Undisturbed state (preempt state) := by
  simp only [preempt]
  split
  · rename_i hpreempt
    simp only [Bool.and_eq_true] at hpreempt
    exact .of_due rfl (takeEsiAwayFromQueue_subset _ _) (fun _ => hpreempt.2) (.refl _)
  · rfl

theorem undisturbed_finishScript (hfinish : finishScript state = some next) :
    Undisturbed state next := by
  obtain ⟨released, key, hrelease, rfl⟩ := of_finishScript hfinish
  refine (undisturbed_releaseResources hrelease).trans ?_
  exact .of_subset rfl (takeEsiAwayFromQueue_subset _ _) (List.Subset.refl _) id (.refl _)

/-- What follows the result. -/
theorem undisturbed_settleResult {result scriptEnd : Received}
    (hsettle : settleResult state result scriptEnd = some next) :
    ∃ received, receiveResult state result scriptEnd = some received ∧
      Undisturbed received next := by
  obtain ⟨received, burnt, hreceive, hburn, hend⟩ := of_settleResult hsettle
  refine ⟨received, hreceive, (undisturbed_burnIfKilled hburn).trans ?_⟩
  obtain ⟨-, hfinish⟩ | ⟨-, hupdate⟩ := hend
  · exact undisturbed_finishScript hfinish
  · obtain ⟨-, rfl⟩ | ⟨-, updated, hupdates, rfl⟩ := of_updateQueues hupdate
    · rfl
    · exact (undisturbed_pendingUpdates hupdates).trans (undisturbed_preempt updated)

theorem undisturbed_receiveExecutionResult {received : Received} {code : ExecutionResult}
    (hreceive : receiveExecutionResult state fd received = some (next, code)) :
    Undisturbed state next := by
  obtain ⟨-, ⟨_, -, rfl⟩ | ⟨_, -, hsock⟩⟩ := of_receiveExecutionResult hreceive
  · rfl
  · exact undisturbed_sockMyPort hsock

theorem undisturbed_rescheduleIfReady (state : PlanificadorState config) :
    Undisturbed state (rescheduleIfReady state) := by
  simp only [rescheduleIfReady]
  split
  · rfl
  · exact .of_due rfl (List.Subset.refl _) (fun _ => rfl) (.refl _)

/-- A result that does not report a wait leaves the figures. -/
theorem undisturbed_handleResult {result : ExecutionResult} {scriptEnd : Received}
    (hother : result ≠ .iAmBlocked)
    (hhandle : handleResult state fd result scriptEnd = some next) : Undisturbed state next := by
  cases result with
  | executionSuccess =>
      obtain ⟨logged, hlog, hrest⟩ := Option.bind_eq_some_iff.mp hhandle
      obtain ⟨rfl, -⟩ := of_logName hlog
      obtain ⟨⟨received, code⟩, hcode, hrest⟩ := Option.bind_eq_some_iff.mp hrest
      have hreceived := undisturbed_receiveExecutionResult hcode
      dsimp only at hrest
      split at hrest
      · rw [← Option.some.inj hrest]
        have hfinished : Undisturbed received { received with finishedEsiFlag := true } :=
          .of_eq rfl rfl rfl id rfl
        exact (hreceived.trans hfinished).trans (undisturbed_rescheduleIfReady _)
      · rw [← Option.some.inj hrest]
        exact hreceived
  | iAmBlocked => exact absurd rfl hother
  | iBrokeTheLaw =>
      obtain ⟨logged, hlog, hrest⟩ := Option.bind_eq_some_iff.mp hhandle
      obtain ⟨rfl, -⟩ := of_logName hlog
      obtain ⟨dead, hdead, hrest⟩ := Option.bind_eq_some_iff.mp hrest
      rw [← Option.some.inj hrest]
      exact (undisturbed_sockMyPort hdead).trans (undisturbed_rescheduleIfReady dead)
  | finishedScript | didntFinishScript | other =>
      obtain rfl := Option.some.inj hhandle
      rfl

/-! ## The observer -/

/-- The estimator of the configuration. -/
def burstEstimator (config : Config) : Estimator config.arithmetic.Float where
  initial := config.initialEstimation
  revise length estimated :=
    nextEstimatedBurstSjf config.arithmetic config.alpha length estimated

/-- The notes about the result of the executing ESI: its burst ends when it is blocked. -/
def noteResult (state : PlanificadorState config) (result : Received) (histories : Histories ℤ) :
    Histories ℤ :=
  if result = .code .iAmBlocked then histories.finish state.executingEsi else histories

/-- The notes about an event, before `PROTOCOL_PE_EXEC` is sent. -/
def noteEvent (state : PlanificadorState config) (event : Event) (histories : Histories ℤ) :
    Histories ℤ :=
  match event with
  | .newClient newClientFd _ => histories.enter newClientFd
  | .executingEsi result _ _ _ => noteResult state result histories
  | _ => histories

/-- What somebody writes down who sees the sockets of the ESIs: an ESI connects, it reports
that it is blocked, and `PROTOCOL_PE_EXEC` is sent. -/
def watchSockets (state : PlanificadorState config) (event : Event)
    (next : PlanificadorState config) (histories : Histories ℤ) : Histories ℤ :=
  (noteEvent state event histories).serve (next.orders.drop state.orders.length)

/-- The figures of every ESI are those of its history. -/
def Accounted (histories : Histories ℤ) (state : PlanificadorState config) : Prop :=
  ∀ information ∈ state.gEsiBursts,
    information.lastEstimatedBurst =
        (burstEstimator config).estimate (histories information.esiId).ended ∧
      information.lastRealBurst = (histories information.esiId).current

variable {histories : Histories ℤ}

theorem accounted_iff : Accounted histories state ↔ ∀ figures ∈ state.figures,
    figures.2.1 = (burstEstimator config).estimate (histories figures.1).ended ∧
      figures.2.2 = (histories figures.1).current := by
  simp only [Accounted, PlanificadorState.figures, List.forall_mem_map]
  rfl

theorem Accounted.undisturbed (haccounted : Accounted histories state)
    (hsame : Undisturbed state next) : Accounted histories next :=
  accounted_iff.mpr fun figures hmem =>
    accounted_iff.mp haccounted figures (hsame.figures.subset hmem)

theorem Undisturbed.distinct (hsame : Undisturbed state next) (hdistinct : state.ids.Nodup) :
    next.ids.Nodup := by
  rw [← map_fst_figures] at hdistinct ⊢
  exact hdistinct.sublist (hsame.figures.map Prod.fst)

/-- The update of one ESI is recorded when its history is brought up to date with it. -/
theorem Accounted.updateInformation {update : EsiInformation config → EsiInformation config}
    {changed : Histories ℤ} (haccounted : Accounted histories state)
    (hdistinct : state.ids.Nodup) (hothers : ∀ other ≠ fd, changed other = histories other)
    (hid : ∀ information, (update information).esiId = information.esiId)
    (hupdate : ∀ information : EsiInformation config,
      information.lastEstimatedBurst =
          (burstEstimator config).estimate (histories fd).ended ∧
        information.lastRealBurst = (histories fd).current →
      (update information).lastEstimatedBurst =
          (burstEstimator config).estimate (changed fd).ended ∧
        (update information).lastRealBurst = (changed fd).current) :
    Accounted changed { state with
      gEsiBursts := Planificador.updateInformation fd update state.gEsiBursts } := by
  intro information hmem
  obtain ⟨hbefore, hother⟩ | ⟨found, hfound, rfl, rfl⟩ := of_mem_updateInformation hdistinct hmem
  · rw [hothers _ hother]
    exact haccounted information hbefore
  · rw [hid]
    exact hupdate found (haccounted found hfound)

/-- `update_executing_esi` counts one statement. -/
theorem accounted_updateExecutingEsi (haccounted : Accounted histories state)
    (hdistinct : state.ids.Nodup) (hupdate : updateExecutingEsi state fd = some next) :
    Accounted (histories.serve [fd]) next := by
  have hknown := (of_modifyInformation hupdate fun _ => rfl).1
  rw [updateExecutingEsi, modifyInformation_of_mem hknown] at hupdate
  obtain rfl := Option.some.inj hupdate
  refine haccounted.updateInformation hdistinct
    (fun other hne => histories.serve_of_ne hne) (fun _ => rfl) fun information hbefore => ?_
  rw [Histories.serve_self]
  refine ⟨hbefore.1, ?_⟩
  simp only [hbefore.2, BurstHistory.serve, Nat.cast_add, Nat.cast_one]

/-- `next_estimated_burst_sjf` is applied to a burst that ends. -/
theorem accounted_updateEsiInformationNextEstimatedBurst (haccounted : Accounted histories state)
    (hdistinct : state.ids.Nodup)
    (hupdate : updateEsiInformationNextEstimatedBurst state fd = some next) :
    Accounted (histories.finish fd) next := by
  have hknown := (of_modifyInformation hupdate fun _ => rfl).1
  rw [updateEsiInformationNextEstimatedBurst, modifyInformation_of_mem hknown] at hupdate
  obtain rfl := Option.some.inj hupdate
  refine haccounted.updateInformation hdistinct
    (fun other hne => histories.finish_of_ne hne) (fun _ => rfl) fun information hbefore => ?_
  rw [Histories.finish_self, Estimator.estimate_finish]
  simp only [hbefore.1, hbefore.2]
  exact ⟨rfl, rfl⟩

/-! ## Orders -/

/-- Between two states `PROTOCOL_PE_EXEC` is sent to some ESIs, and the rest leaves the
figures. -/
structure Tells (told : List ℤ) (state next : PlanificadorState config) : Prop where
  orders : next.orders = state.orders ++ told
  distinct : state.ids.Nodup → next.ids.Nodup
  accounted : ∀ {histories}, state.ids.Nodup → Accounted histories state →
    Accounted (histories.serve told) next

theorem Undisturbed.tells (hsame : Undisturbed state next) : Tells [] state next where
  orders := hsame.orders.trans (List.append_nil _).symm
  distinct := hsame.distinct
  accounted _ haccounted := haccounted.undisturbed hsame

theorem Tells.trans {middle : PlanificadorState config} {first second : List ℤ}
    (hfirst : Tells first state middle) (hsecond : Tells second middle next) :
    Tells (first ++ second) state next where
  orders := by rw [hsecond.orders, hfirst.orders, List.append_assoc]
  distinct hdistinct := hsecond.distinct (hfirst.distinct hdistinct)
  accounted hdistinct haccounted := by
    rw [Histories.serve_append]
    exact hsecond.accounted (hfirst.distinct hdistinct) (hfirst.accounted hdistinct haccounted)

/-- What the choice of an ESI changes besides its orders and the figures. -/
theorem tells_of_eq (horders : next.orders = state.orders)
    (hfigures : next.figures = state.figures) :
    Tells [] state next where
  orders := horders.trans (List.append_nil _).symm
  distinct hdistinct := by
    rw [← map_fst_figures] at hdistinct ⊢
    rwa [hfigures]
  accounted _ haccounted := by
    rw [Histories.serve_nil, accounted_iff, hfigures]
    exact accounted_iff.mp haccounted

theorem tells_authorizeWith {unreachable : List ℤ}
    {again : PlanificadorState config → Option (PlanificadorState config)}
    (hagain : ∀ dead, again dead = some next → ∃ told, Tells told dead next)
    (hauthorize : authorizeWith again unreachable state fd = some next) :
    ∃ told, Tells told state next := by
  simp only [authorizeWith] at hauthorize
  split at hauthorize
  · obtain ⟨-, bursts, heq, hids⟩ := of_modifyInformation hauthorize fun _ => rfl
    refine ⟨[fd], by rw [heq], fun hdistinct => ?_, fun {histories} hdistinct haccounted => ?_⟩
    · rw [PlanificadorState.ids, heq, hids]
      exact hdistinct
    · have hsent : Accounted histories { state with
          outstanding := state.outstanding ++ [fd]
          orders := state.orders ++ [fd] } := haccounted
      exact accounted_updateExecutingEsi hsent hdistinct hauthorize
  · obtain ⟨dead, hdead, hrest⟩ := Option.bind_eq_some_iff.mp hauthorize
    obtain ⟨told, htells⟩ := hagain _ hrest
    have hnobody : Tells [] dead { dead with executingEsi := -1 } := tells_of_eq rfl rfl
    exact ⟨told, ((undisturbed_sockMyPort hdead).tells.trans hnobody).trans htells⟩

theorem tells_rescheduleWithin {unreachable : List ℤ} {fuel : ℕ}
    (hchoose : rescheduleWithin unreachable fuel state = some next) :
    ∃ told, Tells told state next := by
  induction fuel generalizing state next with
  | zero => cases hchoose
  | succ fuel ih =>
      obtain ⟨⟨scheduled, chosen⟩, hschedule, hrest⟩ := Option.bind_eq_some_iff.mp hchoose
      obtain ⟨ready, -, -, hknown, rfl⟩ := perm_of_scheduleEsis hschedule
      obtain ⟨waited, hwaited, hrest⟩ := Option.bind_eq_some_iff.mp hrest
      obtain ⟨authorized, hauthorize, hrest⟩ := Option.bind_eq_some_iff.mp hrest
      obtain ⟨told, hauthorized⟩ := tells_authorizeWith (fun dead hdead => ih hdead) hauthorize
      have hsame : ∀ information : EsiInformation config,
          ({ information with waitedBursts := 0 } : EsiInformation config).figures =
            information.figures := fun _ => rfl
      have hmoved : Tells [] state waited := by
        rw [setWaitingTimeToZero, modifyInformation_of_mem (by exact hknown)] at hwaited
        obtain rfl := Option.some.inj hwaited
        exact tells_of_eq rfl (map_figures_updateInformation hsame _ _)
      have hset : Tells [] authorized
          { authorized with executingEsi := chosen, rescheduleFlag := false } :=
        tells_of_eq rfl rfl
      rw [← Option.some.inj hrest]
      exact ⟨_, (hmoved.trans hauthorized).trans hset⟩

theorem tells_chooseNext {unreachable : List ℤ}
    (hchoose : chooseNext state unreachable = some next) : ∃ told, Tells told state next := by
  simp only [chooseNext] at hchoose
  split at hchoose
  · exact tells_rescheduleWithin hchoose
  · split at hchoose
    · exact tells_authorizeWith (fun dead hdead => tells_rescheduleWithin hdead) hchoose
    · obtain rfl := Option.some.inj hchoose
      exact ⟨[], tells_of_eq rfl rfl⟩

/-! ## Events -/

/-- The frame of the commands that are typed while the loop sleeps. -/
theorem undisturbed_foldl_executeCommand (commands : List Command)
    (state : PlanificadorState config) :
    Undisturbed state (commands.foldl executeCommand state) := by
  induction commands generalizing state with
  | nil => rfl
  | cons command commands ih =>
      obtain ⟨_, _, _, _, _, _, _, heq⟩ := executeCommand_eq state command
      have hfirst : Undisturbed state (executeCommand state command) := by
        rw [heq]
        exact .of_eq rfl rfl rfl id rfl
      exact hfirst.trans (ih _)

theorem undisturbed_updateWaitingTimeOfReadyEsis (state : PlanificadorState config) :
    Undisturbed state (updateWaitingTimeOfReadyEsis state) := by
  refine .of_eq rfl rfl rfl id ?_
  simp only [PlanificadorState.figures, updateWaitingTimeOfReadyEsis, List.map_map]
  refine List.map_congr_left fun information _ => ?_
  simp only [Function.comp_apply]
  split <;> rfl

/-- From the settled result to the choice. -/
theorem undisturbed_choiceState {result scriptEnd : Received} {meanwhile : List Command}
    (hchoice : choiceState state result scriptEnd meanwhile = some next) :
    ∃ received, receiveResult state result scriptEnd = some received ∧
      Undisturbed received next := by
  obtain ⟨settled, resumed, hsettle, hresumed, rfl⟩ := of_choiceState hchoice
  obtain ⟨received, hreceive, hsettled⟩ := undisturbed_settleResult hsettle
  obtain ⟨commands, rfl⟩ := of_waitWhilePaused hresumed
  refine ⟨received, hreceive, hsettled.trans ?_⟩
  have hunfinished : Undisturbed settled { settled with finishedEsiFlag := false } :=
    .of_eq rfl rfl rfl id rfl
  exact (hunfinished.trans (undisturbed_foldl_executeCommand commands _)).trans
    (undisturbed_updateWaitingTimeOfReadyEsis _)

/-- What the report of a blocked ESI does: it leaves the execution queue, and its burst ends. -/
structure EndsBurst (fd : ℤ) (state next : PlanificadorState config) : Prop extends
    Settling state next where
  taken : next.gExecutionQueue = takeEsiAwayFromQueue state.gExecutionQueue fd
  distinct : state.ids.Nodup → next.ids.Nodup
  accounted : ∀ {histories}, state.ids.Nodup → Accounted histories state →
    Accounted (histories.finish fd) next

theorem endsBurst_handleResult {scriptEnd : Received}
    (hhandle : handleResult state fd .iAmBlocked scriptEnd = some next) :
    EndsBurst fd state next := by
  obtain ⟨key, -, hrest⟩ := Option.bind_eq_some_iff.mp hhandle
  obtain ⟨estimated, hestimated, hrest⟩ := Option.bind_eq_some_iff.mp hrest
  obtain ⟨-, bursts, heq, hids⟩ := of_modifyInformation hestimated fun _ => rfl
  have hforgotten : Undisturbed estimated
      { rescheduleIfReady estimated with lastKeyInquired := none } := by
    have hlast : Undisturbed (rescheduleIfReady estimated)
        { rescheduleIfReady estimated with lastKeyInquired := none } := .of_eq rfl rfl rfl id rfl
    exact (undisturbed_rescheduleIfReady estimated).trans hlast
  have hexecution : (rescheduleIfReady estimated).gExecutionQueue = estimated.gExecutionQueue := by
    obtain ⟨flag, hflag⟩ := rescheduleIfReady_eq estimated
    rw [hflag]
  have hestimation : Settling state estimated := by
    rw [heq]
    exact ⟨rfl, takeEsiAwayFromQueue_subset _ _, fun _ hflag => ⟨hflag, List.Subset.refl _⟩⟩
  rw [← Option.some.inj hrest]
  refine ⟨hestimation.trans hforgotten.toSettling, ?_, fun hdistinct => ?_,
    fun {histories} hdistinct haccounted => ?_⟩
  · exact hexecution.trans (by rw [heq]; rfl)
  · refine hforgotten.distinct ?_
    rw [PlanificadorState.ids, heq, hids]
    exact hdistinct
  · have hmoved : Accounted histories (moveEsiFromAndToQueue
        { state with gEsisSexpectingKeys := state.gEsisSexpectingKeys ++ [⟨fd, key⟩] }
        .execution .blocked fd) := haccounted
    exact (accounted_updateEsiInformationNextEstimatedBurst hmoved hdistinct hestimated).undisturbed
      hforgotten

/-- The reading of a result leaves the figures, or it is the report of a blocked ESI. -/
theorem of_receiveResult_figures {result scriptEnd : Received} (hdistinct : state.ids.Nodup)
    (hreceive : receiveResult state result scriptEnd = some next) :
    (result ≠ .code .iAmBlocked ∧ Undisturbed state next) ∨
      (result = .code .iAmBlocked ∧ EndsBurst state.executingEsi state next) := by
  obtain ⟨received, hcode, hhandle⟩ := of_receiveResult hreceive
  have hread : Undisturbed state (answeredState state) := .of_eq rfl rfl rfl id rfl
  have hreceived := hread.trans (undisturbed_receiveExecutionResult hcode)
  by_cases hblocked : result.result = .iAmBlocked
  · rw [hblocked] at hhandle
    have hends := endsBurst_handleResult hhandle
    obtain ⟨-, ⟨code, rfl, rfl⟩ | ⟨garbage, rfl, hsock⟩⟩ := of_receiveExecutionResult hcode
    · obtain rfl : code = .iAmBlocked := hblocked
      exact .inr ⟨rfl, hread.toSettling.trans hends.toSettling, hends.taken, hends.distinct,
        hends.accounted⟩
    · obtain ⟨key, -, hrest⟩ := Option.bind_eq_some_iff.mp hhandle
      obtain ⟨estimated, hestimated, -⟩ := Option.bind_eq_some_iff.mp hrest
      -- the ESI is dead, and `update_esi_information_next_estimated_burst` looks it up
      have hknown : state.executingEsi ∈ received.ids :=
        (of_modifyInformation hestimated fun _ => rfl).1
      rw [ids_sockMyPort hsock hdistinct] at hknown
      simp at hknown
  · refine .inl ⟨fun heq => hblocked (heq ▸ rfl), ?_⟩
    exact hreceived.trans (undisturbed_handleResult hblocked hhandle)

/-- A client gets a socket number that no registered ESI has. -/
def registersOnce (state : PlanificadorState config) : Event → Bool
  | .newClient newClientFd _ => !state.ids.contains newClientFd
  | _ => true

/-- `accept` returns no socket of an ESI that is registered, since these are open. -/
theorem registersOnce_of_partition {event : Event} (hinv : PartitionInvariant state)
    (hstep : mainStep config state event = some next) : registersOnce state event = true := by
  cases event with
  | newClient newClientFd handshake =>
      have hfresh : newClientFd ∉ state.ids := fun hmem =>
        (admission_newClient hstep).fresh (Multiset.mem_coe.mp
          (hinv.partitioned.connected newClientFd (Multiset.mem_coe.mpr hmem)))
      simpa [registersOnce] using hfresh
  | coordinator | executingEsi | endOfTurn | console => rfl

theorem watchSockets_eq {event : Event} {told : List ℤ}
    (horders : next.orders = state.orders ++ told) (histories : Histories ℤ) :
    watchSockets state event next histories = (noteEvent state event histories).serve told := by
  rw [watchSockets, horders, List.drop_left]

/-- The branch of the executing ESI comes to a choice with the notes about the result. -/
theorem of_executingEsiBranch_figures {result scriptEnd : Received} {meanwhile : List Command}
    {unreachable : List ℤ} (hdistinct : state.ids.Nodup)
    (hbranch : executingEsiBranch state result scriptEnd meanwhile unreachable = some next) :
    ∃ choice, choiceState state result scriptEnd meanwhile = some choice ∧
      chooseNext choice unreachable = some next ∧ Settling state choice ∧ choice.ids.Nodup ∧
      (result = .code .iAmBlocked →
        choice.gExecutionQueue ⊆ takeEsiAwayFromQueue state.gExecutionQueue state.executingEsi) ∧
      ∀ {histories}, Accounted histories state →
        Accounted (noteResult state result histories) choice := by
  obtain ⟨-, choice, hchoice, hchoose⟩ := of_executingEsiBranch hbranch
  obtain ⟨received, hreceive, hsame⟩ := undisturbed_choiceState hchoice
  refine ⟨choice, hchoice, hchoose, ?_⟩
  obtain ⟨hother, hread⟩ | ⟨hblocked, hends⟩ := of_receiveResult_figures hdistinct hreceive
  · have hchosen := hread.trans hsame
    refine ⟨hchosen.toSettling, hchosen.distinct hdistinct, fun hblocked => absurd hblocked hother,
      fun haccounted => ?_⟩
    rw [noteResult, if_neg hother]
    exact haccounted.undisturbed hchosen
  · refine ⟨hends.toSettling.trans hsame.toSettling, hsame.distinct (hends.distinct hdistinct),
      fun _ => hends.taken ▸ hsame.execution, fun haccounted => ?_⟩
    rw [noteResult, if_pos hblocked]
    exact (hends.accounted hdistinct haccounted).undisturbed hsame

theorem undisturbed_idleState (hidle : idleState state = some next) : Undisturbed state next := by
  obtain ⟨burnt, hburn, hupdates⟩ := Option.bind_eq_some_iff.mp hidle
  exact (undisturbed_burnIfKilled hburn).trans (undisturbed_pendingUpdates hupdates)

theorem tells_endOfTurn {unreachable : List ℤ} (hturn : endOfTurn state unreachable = some next) :
    ∃ told, Tells told state next := by
  obtain ⟨-, rfl⟩ | ⟨-, idle, hidle, hend⟩ := of_endOfTurn hturn
  · exact ⟨[], tells_of_eq rfl rfl⟩
  · have hsame := (undisturbed_idleState hidle).tells
    obtain ⟨-, rfl⟩ | ⟨-, hchoose⟩ := hend
    · exact ⟨[], hsame⟩
    · obtain ⟨told, htells⟩ := tells_rescheduleWithin hchoose
      exact ⟨told, hsame.trans htells⟩

/-- A new client begins with the initial estimation. -/
theorem accounted_newClient {newClientFd : ℤ} {handshake : Bool}
    (hfresh : newClientFd ∉ state.ids) (haccounted : Accounted histories state)
    (hclient : newClient state newClientFd handshake = some next) :
    Accounted (histories.enter newClientFd) next := by
  have hbursts : next.gEsiBursts = state.gEsiBursts ++
      [createEsiInformation config newClientFd state.esiNumericArrivalOrder] := by
    simp only [newClient] at hclient
    split at hclient
    · cases hclient
    · rw [← Option.some.inj hclient]
      cases handshake <;> rfl
  intro information hmem
  rw [hbursts] at hmem
  rcases List.mem_append.mp hmem with hmem | hmem
  · have hne : information.esiId ≠ newClientFd := fun heq =>
      hfresh (heq ▸ List.mem_map_of_mem hmem)
    rw [histories.enter_of_ne hne]
    exact haccounted information hmem
  · obtain rfl := List.mem_singleton.mp hmem
    rw [show (createEsiInformation config newClientFd state.esiNumericArrivalOrder).esiId =
      newClientFd from rfl, Histories.enter_self]
    exact ⟨rfl, rfl⟩

/-- **Every event keeps the account.** -/
theorem accounted_mainStep {event : Event} (honce : registersOnce state event = true)
    (hdistinct : state.ids.Nodup) (haccounted : Accounted histories state)
    (hstep : mainStep config state event = some next) :
    next.ids.Nodup ∧ Accounted (watchSockets state event next histories) next := by
  have hquiet {told : List ℤ} (hnote : noteEvent state event histories = histories)
      (htells : Tells told state next) :
      next.ids.Nodup ∧ Accounted (watchSockets state event next histories) next := by
    rw [watchSockets_eq htells.orders, hnote]
    exact ⟨htells.distinct hdistinct, htells.accounted hdistinct haccounted⟩
  cases event with
  | newClient newClientFd handshake =>
      have hadmission := admission_newClient hstep
      have hfresh : newClientFd ∉ state.ids := by simpa [registersOnce] using honce
      have horders : next.orders = state.orders ++ [] :=
        hadmission.orders.trans (List.append_nil _).symm
      rw [watchSockets_eq horders, Histories.serve_nil, hadmission.ids]
      refine ⟨?_, accounted_newClient hfresh haccounted hstep⟩
      exact List.nodup_append.mpr ⟨hdistinct, List.nodup_singleton _, fun other hmem last hlast =>
        fun heq => hfresh (List.mem_singleton.mp hlast ▸ heq ▸ hmem)⟩
  | coordinator message =>
      obtain ⟨⟨next, answer⟩, hbranch, rfl⟩ := Option.map_eq_some_iff.mp hstep
      obtain ⟨_, _, _, _, _, rfl⟩ := of_coordinatorBranch hbranch
      exact hquiet rfl (tells_of_eq rfl rfl)
  | executingEsi result scriptEnd meanwhile unreachable =>
      obtain ⟨choice, -, hchoose, hsettling, hdistinct', -, hread⟩ :=
        of_executingEsiBranch_figures hdistinct hstep
      obtain ⟨told, htells⟩ := tells_chooseNext hchoose
      rw [watchSockets_eq (by rw [htells.orders, hsettling.orders])]
      exact ⟨htells.distinct hdistinct', htells.accounted hdistinct' (hread haccounted)⟩
  | endOfTurn unreachable =>
      obtain ⟨told, htells⟩ := tells_endOfTurn hstep
      exact hquiet rfl htells
  | console command =>
      obtain rfl := Option.some.inj hstep
      obtain ⟨_, _, _, _, _, _, _, heq⟩ := executeCommand_eq state command
      rw [heq] at hquiet ⊢
      exact hquiet rfl (tells_of_eq rfl rfl)

/-! ## The result -/

/-- The histories of all ESIs after some events, as seen on their sockets. -/
def burstHistories (config : Config) (events : List Event) : Histories ℤ :=
  (mainStep config).notesAfter watchSockets (PlanificadorState.init config) events
    fun _ => .fresh

/-- **The estimations are those of the bursts.** Whatever happens to an ESI, its estimation is
the average of the bursts that it has ended by reporting that it is blocked, in their order,
from the initial estimation on, and its real burst is the number of statements that it was
told to execute since. -/
theorem estimations_of_runs {finish : PlanificadorState config} {events : List Event}
    (hrun : (mainStep config).Runs (fun state event => registersOnce state event = true)
      (PlanificadorState.init config) events finish) :
    ∀ information ∈ finish.gEsiBursts,
      information.lastEstimatedBurst = (burstEstimator config).estimate
          (burstHistories config events information.esiId).ended ∧
        information.lastRealBurst =
          (burstHistories config events information.esiId).current := by
  have hboth : finish.ids.Nodup ∧ Accounted (burstHistories config events) finish := by
    refine hrun.invariant_notes (fun state histories => state.ids.Nodup ∧
      Accounted histories state) ?_ ⟨List.nodup_nil, fun information hmem => ?_⟩
    · intro state event next histories hinv honce hstep
      exact accounted_mainStep honce hinv.1 hinv.2 hstep
    · cases hmem
  exact hboth.2

/-- An ESI executes two statements, the second of which blocks it. -/
def blockedBurst : List Event :=
  [.newClient 10 true, .newClient 11 true, .console (.bloquear keyK 9), .endOfTurn [],
    .executingEsi (.code .executionSuccess) (.code .didntFinishScript) [] [],
    .coordinator (.isThisKeyBlocked keyK),
    .executingEsi (.code .iAmBlocked) (.code .other) [] []]

/-- Its burst of two statements has replaced the initial estimation. -/
theorem estimations_of_runs_blockedBurst :
    burstHistories (smallConfig .sjfsd) blockedBurst 10 = ⟨[2], 0⟩ ∧
      ∃ finish : PlanificadorState (smallConfig .sjfsd), ∃ information ∈ finish.gEsiBursts,
        information.esiId = 10 ∧
          information.lastEstimatedBurst = (burstEstimator (smallConfig .sjfsd)).estimate
            (burstHistories (smallConfig .sjfsd) blockedBurst information.esiId).ended ∧
          information.lastRealBurst =
            (burstHistories (smallConfig .sjfsd) blockedBurst information.esiId).current := by
  refine ⟨by decide, ?_⟩
  obtain ⟨finish, hrun, hcheck⟩ := PartialStep.exists_run_of_execute
    ((mainStep (smallConfig .sjfsd)).guarded registersOnce) (PlanificadorState.init _)
    blockedBurst (fun state => state.gEsiBursts.any fun information =>
      decide (information.esiId = 10)) (by decide)
  obtain ⟨information, hmem, hid⟩ := List.any_eq_true.mp hcheck
  exact ⟨finish, information, hmem, of_decide_eq_true hid,
    estimations_of_runs (PartialStep.runs_of_guarded hrun) information hmem⟩

end SockMyPort.Planificador
