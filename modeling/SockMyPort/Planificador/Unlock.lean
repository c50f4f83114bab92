/-
# The unlock of a STORE

`PROTOCOL_CP_UNLOCK_KEY` leaves the key in one pointer and sets one flag; the
unlock itself is done when the result of the statement is processed. Before that
come the pending kills, and the release of the keys of a killed ESI clears the
same flag. The key is handed over when that does not happen, or when the ESI that
stored finishes or dies in the same step and releases the key with all others.
-/

import SockMyPort.Planificador.Operations
import SockMyPort.Library.Handover

namespace SockMyPort.Planificador

open SockMyPort.Commons Library

variable {config : Config} {state next : PlanificadorState config} {key : CString}

/-! ## What is meant -/

/-- The ESIs that wait for a key, the longest first. -/
def expecting (state : PlanificadorState config) (key : CString) : List ℤ :=
  (state.gEsisSexpectingKeys.filter fun sexpecting => sexpecting.key = key).map
    EsiSexpectingKey.esiFd

/-- The ESIs that are killed in the step that begins in a state. -/
def killedInStep (state : PlanificadorState config) : List ℤ :=
  if state.killedEsiFlag then state.gNewKilledEsis else []

/-- The ESI that has waited longest for a key among those that are not killed. -/
def heirOf (state : PlanificadorState config) (key : CString) : Option ℤ :=
  (expecting state key).find? fun esiFd => esiFd ∉ killedInStep state

/-- The key was handed over between two states: the ESI that stored it does not
own it, and the ESI that has waited longest for it has been moved from the blocked
to the ready queue. -/
structure HandedOver (before after : PlanificadorState config) (key : CString) : Prop where
  freed : ∀ blocker ∈ after.gLockedKeys,
    ¬ (blocker.key = key ∧ blocker.esiId = before.executingEsi)
  unblocked : ∀ esiFd ∈ heirOf before key,
    (⟨esiFd, key⟩ : EsiSexpectingKey) ∈ after.unblocked.drop before.unblocked.length

/-! ## The condition -/

/-- The executing ESI is the one recorded owner of the key and waits for nothing,
and every ESI waits for one key. -/
structure StoredByExecuting (state : PlanificadorState config) (key : CString) : Prop where
  owner : (state.gLockedKeys.filter fun blocker => blocker.key = key) = [⟨key, state.executingEsi⟩]
  once : (state.gEsisSexpectingKeys.map EsiSexpectingKey.esiFd).Nodup
  awake : state.executingEsi ∉ state.gEsisSexpectingKeys.map EsiSexpectingKey.esiFd

instance : Decidable (StoredByExecuting state key) :=
  decidable_of_iff ((state.gLockedKeys.filter fun blocker => blocker.key = key) =
      [⟨key, state.executingEsi⟩] ∧
    (state.gEsisSexpectingKeys.map EsiSexpectingKey.esiFd).Nodup ∧
    state.executingEsi ∉ state.gEsisSexpectingKeys.map EsiSexpectingKey.esiFd)
    ⟨fun ⟨howner, honce, hawake⟩ => ⟨howner, honce, hawake⟩,
      fun hstored => ⟨hstored.owner, hstored.once, hstored.awake⟩⟩

/-- The ESI that stored dies when its result is read. -/
def diesAtOnce : Received → Received → Bool
  | .failure _, _ => true
  | .code .iBrokeTheLaw, _ => true
  | .code .executionSuccess, .failure _ => true
  | _, _ => false

/-- The ESI that stored has finished its script. -/
def finishesNow (state : PlanificadorState config) : Received → Received → Bool
  | .code .executionSuccess, .code .finishedScript => true
  | _, _ => state.finishedEsiFlag

/-- The ESIs that die in the step, in order. An ESI that has finished is spared. -/
def deaths (state : PlanificadorState config) (result scriptEnd : Received) : List ℤ :=
  (if diesAtOnce result scriptEnd then [state.executingEsi] else []) ++
    (if finishesNow state result scriptEnd && (killedInStep state).contains state.executingEsi then
      (killedInStep state).eraseP fun esiFd => esiFd = state.executingEsi
    else killedInStep state)

/-- The step keeps the pending unlock: it is not cleared by the release of a killed
ESI's keys before it is done, unless the ESI that stored finishes or dies as well;
the ESI that is woken is not killed after that; and no console request gives the
key back to the ESI that stored. -/
def keepsUnlock (state : PlanificadorState config) (key : CString) (result scriptEnd : Received)
    (meanwhile : List Command) (unreachable : List ℤ) : Bool :=
  (finishesNow state result scriptEnd ||
      (deaths state result scriptEnd).contains state.executingEsi ||
      (deaths state result scriptEnd).all fun esiFd => (keysOf state.gLockedKeys esiFd).isEmpty) &&
    Dispatcher.spares state.executingEsi (expecting state key) (deaths state result scriptEnd) &&
    (executingEsiOperations state result scriptEnd meanwhile unreachable).all fun operation =>
      decide (¬ Dispatcher.Regrants key state.executingEsi operation)

/-! ## The abstract debt -/

theorem waitersOf_dispatcher (state : PlanificadorState config) (key : CString) :
    state.dispatcher.waitersOf key = expecting state key := by
  simp only [Dispatcher.waitersOf, PlanificadorState.dispatcher, List.filter_map, List.map_map,
    expecting]
  rfl

theorem StoredByExecuting.owed (hstored : StoredByExecuting state key) :
    state.dispatcher.Owed key state.executingEsi (heirOf state key) state.unblocked.length
      (killedInStep state) := by
  refine ⟨?_, ?_, fun wait hmem => ?_, ?_, ?_⟩
  · simp only [PlanificadorState.dispatcher, List.filter_map]
    exact congrArg (List.map KeyBlocker.hold) hstored.owner
  · simp only [PlanificadorState.dispatcher, List.map_map]
    exact hstored.once
  · obtain ⟨sexpecting, hsexpecting, rfl⟩ := List.mem_map.mp hmem
    exact fun heq => hstored.awake (List.mem_map.mpr ⟨sexpecting, hsexpecting, heq⟩)
  · rw [waitersOf_dispatcher]
    rfl
  · simp [PlanificadorState.dispatcher]

theorem HandedOver.of_delivered {before : PlanificadorState config}
    (hdelivered : next.dispatcher.Delivered key before.executingEsi (heirOf before key)
      before.unblocked.length) : HandedOver before next key where
  freed blocker hmem := hdelivered.free blocker.hold (List.mem_map_of_mem hmem)
  unblocked esiFd hheir := by
    have hmem := hdelivered.woken esiFd hheir
    simp only [PlanificadorState.dispatcher, ← List.map_drop] at hmem
    obtain ⟨sexpecting, hsexpecting, heq⟩ := List.mem_map.mp hmem
    cases sexpecting
    cases heq
    exact hsexpecting

/-- What has been delivered stays so while nothing grants the key again. -/
theorem delivered_of_performs {owner : ℤ} {heir : Option ℤ} {since : ℕ}
    {operations : List KeyOperation} (hgenuine : state.dispatcher.Genuine (-1))
    (hdelivered : state.dispatcher.Delivered key owner heir since) (howner : owner ≠ -1)
    (hperforms : Performs state operations next)
    (hgrants : ∀ operation ∈ operations, ¬ Dispatcher.Regrants key owner operation) :
    next.dispatcher.Delivered key owner heir since :=
  hdelivered.execute howner hgrants (hperforms hgenuine)

/-! ## Reading the result -/

/-- When the ESI dies at once, that is the first thing that happens. -/
theorem receiveOperations_of_diesAtOnce (key : CString) (state : PlanificadorState config)
    {result scriptEnd : Received} (hdies : diesAtOnce result scriptEnd = true) :
    ∃ rest, receiveOperations state result scriptEnd =
      .act state.executingEsi :: .die state.executingEsi :: rest ∧
      ∀ operation ∈ rest, ¬ Dispatcher.Regrants key state.executingEsi operation := by
  cases result with
  | failure garbage =>
      refine ⟨_, rfl, fun operation hmem => ?_⟩
      cases garbage with
      | executionSuccess =>
          cases scriptEnd with
          | code code => cases hmem
          | failure garbage =>
              obtain rfl := List.mem_singleton.mp hmem
              exact id
      | iAmBlocked =>
          obtain ⟨other, -, rfl⟩ := List.mem_map.mp hmem
          exact id
      | iBrokeTheLaw =>
          obtain rfl := List.mem_singleton.mp hmem
          exact id
      | finishedScript | didntFinishScript | other => cases hmem
  | code code =>
      cases code with
      | executionSuccess =>
          cases scriptEnd with
          | code code => cases hdies
          | failure garbage => exact ⟨[], rfl, fun _ hmem => by cases hmem⟩
      | iBrokeTheLaw => exact ⟨[], rfl, fun _ hmem => by cases hmem⟩
      | iAmBlocked | finishedScript | didntFinishScript | other => cases hdies

/-- When the ESI neither dies at once nor is blocked, only flags change. -/
theorem receiveResult_of_lives {result scriptEnd : Received}
    (hdies : diesAtOnce result scriptEnd = false) (hblocked : result ≠ .code .iAmBlocked)
    (hreceive : receiveResult state result scriptEnd = some next) :
    ∃ flag, next = { answeredState state with
      finishedEsiFlag := finishesNow state result scriptEnd
      rescheduleFlag := flag } := by
  obtain ⟨received, hcode, hhandle⟩ := of_receiveResult hreceive
  cases result with
  | failure garbage => cases hdies
  | code code =>
      obtain ⟨rfl, -⟩ := Prod.mk.inj (Option.some.inj hcode)
      cases code with
      | executionSuccess =>
          obtain ⟨logged, hlog, hrest⟩ := Option.bind_eq_some_iff.mp hhandle
          obtain ⟨rfl, -⟩ := of_logName hlog
          cases scriptEnd with
          | failure garbage => cases hdies
          | code code =>
              simp only [receiveExecutionResult, Option.bind_eq_bind, Option.bind_some] at hrest
              split at hrest
              · rename_i hend
                subst hend
                obtain ⟨flag, hflag⟩ := rescheduleIfReady_eq
                  { answeredState state with finishedEsiFlag := true }
                exact ⟨flag, (Option.some.inj hrest).symm.trans hflag⟩
              · refine ⟨state.rescheduleFlag, (Option.some.inj hrest).symm.trans ?_⟩
                cases code <;> first
                  | rfl
                  | contradiction
      | iAmBlocked => exact absurd rfl hblocked
      | iBrokeTheLaw => cases hdies
      | finishedScript | didntFinishScript | other =>
          exact ⟨state.rescheduleFlag, (Option.some.inj hhandle).symm⟩

/-! ## The deaths -/

/-- The death of an ESI without keys leaves the pending unlock alone. -/
theorem unlock_of_sockMyPort {fd : ℤ} (hkeys : keysOf state.gLockedKeys fd = [])
    (hsock : sockMyPort state fd = some next) :
    next.updateBlockedEsiQueueFlag = state.updateBlockedEsiQueueFlag ∧
      next.keyToUnlock = state.keyToUnlock ∧ next.gLockedKeys = state.gLockedKeys := by
  obtain ⟨-, released, hreleased, rfl⟩ := of_sockMyPort hsock
  rw [hkeys] at hreleased
  obtain rfl := Option.some.inj hreleased
  refine ⟨rfl, rfl, List.eraseP_of_forall_not fun blocker hmem howner => ?_⟩
  have hkey : blocker.key ∈ keysOf state.gLockedKeys fd :=
    List.mem_map_of_mem (List.mem_filter.mpr ⟨hmem, howner⟩)
  rw [hkeys] at hkey
  cases hkey

theorem unlock_of_sockMyPorts {esis : List ℤ} (hsock : sockMyPorts state esis = some next)
    (hkeys : ∀ fd ∈ esis, keysOf state.gLockedKeys fd = []) :
    next.updateBlockedEsiQueueFlag = state.updateBlockedEsiQueueFlag ∧
      next.keyToUnlock = state.keyToUnlock := by
  induction esis generalizing state with
  | nil =>
      obtain rfl := Option.some.inj hsock
      exact ⟨rfl, rfl⟩
  | cons fd esis ih =>
      obtain ⟨dead, hdead, hrest⟩ := Option.bind_eq_some_iff.mp hsock
      obtain ⟨hflag, hkey, hlocked⟩ := unlock_of_sockMyPort (hkeys fd List.mem_cons_self) hdead
      obtain ⟨hflag', hkey'⟩ := ih hrest fun other hmem => by
        rw [hlocked]
        exact hkeys other (List.mem_cons_of_mem _ hmem)
      exact ⟨hflag'.trans hflag, hkey'.trans hkey⟩

/-- The kills of a step without their ESIs' keys leave the pending unlock alone. -/
theorem unlock_of_burnIfKilled (hburn : burnIfKilled state = some next)
    (hkeys : ∀ operation ∈ killOperations state, ∀ fd, operation = .die fd →
      keysOf state.gLockedKeys fd = []) :
    next.updateBlockedEsiQueueFlag = state.updateBlockedEsiQueueFlag ∧
      next.keyToUnlock = state.keyToUnlock := by
  simp only [burnIfKilled] at hburn
  split at hburn
  · rename_i hkilled
    obtain ⟨burnt, hburnt, rfl⟩ := of_burnEsiCorpses hburn
    rw [killOperations, if_pos hkilled] at hkeys
    have hunlock := unlock_of_sockMyPorts hburnt fun fd hmem =>
      hkeys (.die fd) (List.mem_map_of_mem hmem) fd rfl
    exact hunlock
  · obtain rfl := Option.some.inj hburn
    exact ⟨rfl, rfl⟩

/-- Up to the ESI that stored, those that die are those that are killed. -/
theorem mem_deaths_iff (state : PlanificadorState config) (result scriptEnd : Received) {fd : ℤ}
    (hne : fd ≠ state.executingEsi) :
    fd ∈ deaths state result scriptEnd ↔ fd ∈ killedInStep state := by
  have hspared : fd ∈ ((killedInStep state).eraseP fun esiFd => esiFd = state.executingEsi) ↔
      fd ∈ killedInStep state := List.mem_eraseP_of_neg (by simpa using hne)
  simp only [deaths, List.mem_append]
  cases diesAtOnce result scriptEnd <;>
    cases finishesNow state result scriptEnd && (killedInStep state).contains state.executingEsi <;>
      simp [hne, hspared]

/-- The deaths of a step in which the ESI that stored lives on are the kills. -/
theorem killOperations_of_lives {result scriptEnd : Received} {flag : Bool}
    (hdies : diesAtOnce result scriptEnd = false) :
    killOperations { answeredState state with
      finishedEsiFlag := finishesNow state result scriptEnd
      rescheduleFlag := flag } = (deaths state result scriptEnd).map Operation.die := by
  simp only [killOperations, condemned, deaths, killedInStep, hdies, answeredState, endTurn]
  by_cases hkilled : state.killedEsiFlag = true
  · simp only [hkilled, if_true, Bool.and_comm]
    rfl
  · simp [hkilled]

/-! ## The unlock after the deaths -/

/-- Where a step stands after the deaths: the key was delivered, or it is still
owed and the ESI that stored has not died. -/
theorem owed_or_delivered {result scriptEnd : Received} {received burnt : PlanificadorState config}
    (hgenuine : state.dispatcher.Genuine (-1)) (hreal : state.executingEsi ≠ -1)
    (hstored : StoredByExecuting state key) (hblocked : result ≠ .code .iAmBlocked)
    (hspares : Dispatcher.spares state.executingEsi (expecting state key)
      (deaths state result scriptEnd) = true)
    (hreceive : receiveResult state result scriptEnd = some received)
    (hburn : burnIfKilled received = some burnt) :
    burnt.dispatcher.Delivered key state.executingEsi (heirOf state key) state.unblocked.length ∨
      (burnt.dispatcher.Owed key state.executingEsi (heirOf state key)
          state.unblocked.length [] ∧
        state.executingEsi ∉ deaths state result scriptEnd ∧
        ∃ flag, received = { answeredState state with
          finishedEsiFlag := finishesNow state result scriptEnd
          rescheduleFlag := flag }) := by
  have howed : (state.dispatcher.endTurns state.executingEsi).Owed key state.executingEsi
      (heirOf state key) state.unblocked.length (deaths state result scriptEnd) :=
    (hstored.owed.doomed_congr fun fd hne => mem_deaths_iff state result scriptEnd hne).congr
      rfl rfl rfl
  rw [← waitersOf_dispatcher] at hspares
  have hreceived := performs_receiveResult hreal hreceive
  cases hdies : diesAtOnce result scriptEnd with
  | true =>
      obtain ⟨rest, hoperations, hrest⟩ := receiveOperations_of_diesAtOnce key state hdies
      have hexec := hreceived hgenuine
      rw [hoperations] at hexec
      obtain ⟨acted, hact, hexec⟩ := Option.bind_eq_some_iff.mp hexec
      obtain rfl := Option.some.inj hact
      obtain ⟨dead, hdie, hexec⟩ := Option.bind_eq_some_iff.mp hexec
      obtain ⟨-, rfl⟩ := Option.ite_some_none_eq_some.mp hdie
      simp only [deaths, hdies, if_true, List.singleton_append] at howed hspares
      have hdead := (howed.die_spared hspares).execute hreal hrest hexec
      refine .inl (delivered_of_performs (hreceived.genuine hgenuine) hdead hreal
        (performs_burnIfKilled hburn) fun operation hmem => ?_)
      simp only [killOperations] at hmem
      split at hmem
      · obtain ⟨fd, -, rfl⟩ := List.mem_map.mp hmem
        exact id
      · cases hmem
  | false =>
      obtain ⟨flag, rfl⟩ := receiveResult_of_lives hdies hblocked hreceive
      have hkills := performs_burnIfKilled hburn (hreceived.genuine hgenuine)
      rw [killOperations_of_lives hdies] at hkills
      have hall := howed.dieAll hreal hspares (by
        refine Eq.trans ?_ hkills
        exact congrArg (performKey.execute · _) (dispatcher_endTurn _ _).symm)
      split at hall
      · exact .inl hall
      · exact .inr ⟨hall, ‹_›, flag, rfl⟩

/-- The pending unlock delivers a key that is owed, and the updates after it do
not take it back. -/
theorem delivered_of_updateQueues {owner : ℤ} {heir : Option ℤ} {since : ℕ}
    (hgenuine : state.dispatcher.Genuine (-1)) (hreal : state.executingEsi ≠ -1)
    (hflag : state.updateBlockedEsiQueueFlag = true) (hkey : state.keyToUnlock = some key)
    (howner : owner ≠ -1) (howed : state.dispatcher.Owed key owner heir since [])
    (hgrants : ∀ operation ∈ updateOperations state, ¬ Dispatcher.Regrants key owner operation)
    (hupdate : updateQueues state = some next) :
    next.dispatcher.Delivered key owner heir since := by
  have hdue : updatesDue state = true := by simp [updatesDue, hflag]
  obtain ⟨hquiet, -⟩ | ⟨-, updated, hupdates, rfl⟩ := of_updateQueues hupdate
  · rw [hdue] at hquiet
    cases hquiet
  rw [updateOperations, ← updatesDue, if_pos hdue, hupdates, after_some] at hgrants
  obtain ⟨stored, unlocked, hstored, hunlocked, hblocked⟩ := of_pendingUpdates hupdates
  rw [pendingOperations, hstored, after_some] at hgrants
  have hgenuineStored := (performs_unlockStored hstored).genuine hgenuine
  have hdelivered : stored.dispatcher.Delivered key owner heir since := by
    obtain ⟨hnone, -⟩ | ⟨-, other, woken, hother, hwake, rfl⟩ := of_unlockStored hstored
    · rw [hflag] at hnone
      cases hnone
    · obtain rfl := Option.some.inj (hkey.symm.trans hother)
      have hwoken := (dispatcher_updateBlockedEsiQueue hgenuine hwake).1
      have hfreed : woken.dispatcher.Delivered key owner heir since := hwoken ▸ howed.wake_key
      exact hfreed
  have hlater := performs_laterUpdates hunlocked hblocked
  have hupdated := delivered_of_performs hgenuineStored hdelivered howner hlater
    fun operation hmem => hgrants operation
      (List.mem_append_left _ (List.mem_append_right _ hmem))
  refine delivered_of_performs (hlater.genuine hgenuineStored) hupdated howner
    (performs_preempt ?_) fun operation hmem => hgrants operation (List.mem_append_right _ hmem)
  rwa [(background_pendingUpdates hupdates).executingEsi]

/-- **A kept unlock is delivered** by the step that processes the result. -/
theorem delivered_of_executingEsiBranch {result scriptEnd : Received} {meanwhile : List Command}
    {unreachable : List ℤ} (hgenuine : state.dispatcher.Genuine (-1))
    (hflag : state.updateBlockedEsiQueueFlag = true) (hkey : state.keyToUnlock = some key)
    (hstored : StoredByExecuting state key) (hblocked : result ≠ .code .iAmBlocked)
    (hkeeps : keepsUnlock state key result scriptEnd meanwhile unreachable = true)
    (hbranch : executingEsiBranch state result scriptEnd meanwhile unreachable = some next) :
    next.dispatcher.Delivered key state.executingEsi (heirOf state key)
      state.unblocked.length := by
  simp only [keepsUnlock, Bool.and_eq_true, Bool.or_eq_true, List.all_eq_true,
    decide_eq_true_eq] at hkeeps
  obtain ⟨⟨hcleared, hspares⟩, hgrants⟩ := hkeeps
  obtain ⟨hconnected, choice, hchoice, hchoose⟩ := of_executingEsiBranch hbranch
  obtain ⟨settled, resumed, hsettle, hresumed, rfl⟩ := of_choiceState hchoice
  obtain ⟨received, burnt, hreceive, hburn, hend⟩ := of_settleResult hsettle
  have hreal : state.executingEsi ≠ -1 := fun heq =>
    hgenuine.connected (heq ▸ Multiset.mem_coe.mpr hconnected)
  have hexecuting : burnt.executingEsi = state.executingEsi := by
    rw [(background_burnIfKilled hburn).executingEsi, (control_of_receiveResult hreceive).1]
  rw [executingEsiOperations, hreceive, after_some, hburn, after_some, hchoice,
    after_some] at hgrants
  have hreceived := (performs_receiveResult hreal hreceive).genuine hgenuine
  have hburnt := (performs_burnIfKilled hburn).genuine hreceived
  have hstands := owed_or_delivered hgenuine hreal hstored hblocked hspares hreceive hburn
  -- what the step does after the deaths
  have hsettled : settled.dispatcher.Genuine (-1) ∧ settled.dispatcher.Delivered key
      state.executingEsi (heirOf state key) state.unblocked.length := by
    obtain ⟨hfinished, hfinish⟩ | ⟨hfinished, hupdate⟩ := hend
    · have hperforms := performs_finishScript hfinish
      refine ⟨hperforms.genuine hburnt, ?_⟩
      rw [hexecuting] at hperforms
      obtain hdelivered | ⟨howed, -⟩ := hstands
      · exact delivered_of_performs hburnt hdelivered hreal hperforms
          (by simp [Dispatcher.Regrants])
      · obtain ⟨finished, hstep, hrest⟩ := Option.bind_eq_some_iff.mp (hperforms hburnt)
        obtain ⟨-, rfl⟩ := Option.ite_some_none_eq_some.mp hstep
        rw [← Option.some.inj hrest]
        exact howed.finish_owner
    · rw [if_neg (by simp [hfinished])] at hgrants
      have hupdates : ∀ operation ∈ updateOperations burnt,
          ¬ Dispatcher.Regrants key state.executingEsi operation := fun operation hmem =>
        hgrants operation (List.mem_append_right _ (List.mem_append_right _
          (List.mem_append_left _ hmem)))
      have hperforms := performs_updateQueues (hexecuting ▸ hreal) hupdate
      refine ⟨hperforms.genuine hburnt, ?_⟩
      obtain hdelivered | ⟨howed, halive, flag, rfl⟩ := hstands
      · exact delivered_of_performs hburnt hdelivered hreal hperforms hupdates
      · have hgoes : finishesNow state result scriptEnd = false :=
          (background_burnIfKilled hburn).finishedEsiFlag.symm.trans hfinished
        have hdies : diesAtOnce result scriptEnd = false := by
          by_contra hdies
          simp [deaths, hdies] at halive
        have hkeyless : ∀ fd ∈ deaths state result scriptEnd, keysOf state.gLockedKeys fd = [] := by
          simpa [hgoes, halive] using hcleared
        obtain ⟨hburntFlag, hburntKey⟩ :=
          unlock_of_burnIfKilled hburn fun operation hmem fd hdie => by
            rw [killOperations_of_lives hdies] at hmem
            obtain ⟨dead, hdead, rfl⟩ := List.mem_map.mp hmem
            cases hdie
            exact hkeyless fd hdead
        exact delivered_of_updateQueues hburnt (hexecuting ▸ hreal) (hburntFlag.trans hflag)
          (hburntKey.trans hkey) hreal howed hupdates hupdate
  have hlast : (updateWaitingTimeOfReadyEsis resumed).dispatcher = settled.dispatcher :=
    (dispatcher_updateWaitingTimeOfReadyEsis resumed).trans (dispatcher_waitWhilePaused hresumed :)
  obtain ⟨hgenuineSettled, hdelivered⟩ := hsettled
  rw [← hlast] at hgenuineSettled hdelivered
  exact delivered_of_performs hgenuineSettled hdelivered hreal (performs_chooseNext hchoose)
    fun operation hmem => hgrants operation (List.mem_append_right _ (List.mem_append_right _
      (List.mem_append_right _ hmem)))

/-! ## Runs -/

/-- An event between the unlock and the result of the statement that caused it. -/
def awaitsResult : Event → Bool
  | .executingEsi .. => false
  | .coordinator (.unlockKey _) => false
  | _ => true

/-- The unlock is pending and an ESI is executing. -/
structure UnlockPending (key : CString) (state : PlanificadorState config) : Prop where
  flag : state.updateBlockedEsiQueueFlag = true
  key : state.keyToUnlock = some key
  executing : state.gExecutionQueue ≠ []

theorem unlockPending_of_unlockKey {answer : Option CoordinatorAnswer}
    (hexecuting : state.gExecutionQueue ≠ [])
    (hunlock : coordinatorBranch state (.unlockKey key) = some (next, answer)) :
    UnlockPending key next := by
  obtain ⟨entered, hwait, hrest⟩ := Option.bind_eq_some_iff.mp hunlock
  obtain ⟨count, rfl⟩ := of_semWait hwait
  obtain ⟨rfl, -⟩ := Prod.mk.inj (Option.some.inj hrest)
  exact ⟨rfl, rfl, hexecuting⟩

/-- A message of the coordinator other than an unlock keeps the pending unlock. -/
theorem UnlockPending.coordinatorBranch {message : CoordinatorMessage}
    {answer : Option CoordinatorAnswer} (hpending : UnlockPending key state)
    (hawaits : awaitsResult (.coordinator message) = true)
    (hbranch : coordinatorBranch state message = some (next, answer)) :
    UnlockPending key next := by
  obtain ⟨hflag, hkey, hexecuting⟩ := hpending
  cases message with
  | unlockKey other => cases hawaits
  | isThisKeyBlocked other =>
      obtain ⟨entered, hwait, hrest⟩ := Option.bind_eq_some_iff.mp hbranch
      obtain ⟨count, rfl⟩ := of_semWait hwait
      dsimp only at hrest
      split at hrest
      · obtain ⟨rfl, -⟩ := Prod.mk.inj (Option.some.inj hrest)
        exact ⟨hflag, hkey, hexecuting⟩
      · obtain ⟨rfl, -⟩ := Prod.mk.inj (Option.some.inj hrest)
        exact ⟨hflag, hkey, hexecuting⟩
  | isKeyBlockedByExecutingEsi =>
      obtain ⟨inquired, -, hrest⟩ := Option.bind_eq_some_iff.mp hbranch
      obtain ⟨response, -, hrest⟩ := Option.bind_eq_some_iff.mp hrest
      split at hrest
      · obtain ⟨rfl, -⟩ := Prod.mk.inj (Option.some.inj hrest)
        exact ⟨hflag, hkey, hexecuting⟩
      · obtain ⟨rfl, -⟩ := Prod.mk.inj (Option.some.inj hrest)
        exact ⟨hflag, hkey, hexecuting⟩
  | blockKey =>
      obtain ⟨entered, hwait, hrest⟩ := Option.bind_eq_some_iff.mp hbranch
      obtain ⟨count, rfl⟩ := of_semWait hwait
      obtain ⟨inquired, -, hrest⟩ := Option.bind_eq_some_iff.mp hrest
      obtain ⟨blocked, hadd, hrest⟩ := Option.bind_eq_some_iff.mp hrest
      obtain ⟨rfl, -⟩ := Prod.mk.inj (Option.some.inj hrest)
      simp only [addNewKeyBlocker] at hadd
      split at hadd
      · rw [← Option.some.inj hadd]
        exact ⟨hflag, hkey, hexecuting⟩
      · cases hadd
  | keyStatus =>
      obtain ⟨entered, hwait, hrest⟩ := Option.bind_eq_some_iff.mp hbranch
      obtain ⟨count, rfl⟩ := of_semWait hwait
      obtain ⟨rfl, -⟩ := Prod.mk.inj (Option.some.inj hrest)
      exact ⟨hflag, hkey, hexecuting⟩

/-- Until the result arrives the unlock stays pending. -/
theorem UnlockPending.mainStep {event : Event} (hpending : UnlockPending key state)
    (hawaits : awaitsResult event = true) (hstep : mainStep config state event = some next) :
    UnlockPending key next := by
  obtain ⟨hflag, hkey, hexecuting⟩ := hpending
  cases event with
  | newClient newClientFd handshake =>
      simp only [Planificador.mainStep, newClient] at hstep
      split at hstep
      · cases hstep
      · rw [← Option.some.inj hstep]
        cases handshake <;> exact ⟨hflag, hkey, hexecuting⟩
  | coordinator message =>
      obtain ⟨⟨next, answer⟩, hbranch, rfl⟩ := Option.map_eq_some_iff.mp hstep
      exact UnlockPending.coordinatorBranch ⟨hflag, hkey, hexecuting⟩ hawaits hbranch
  | executingEsi => cases hawaits
  | endOfTurn unreachable =>
      obtain ⟨-, rfl⟩ | ⟨hquiet, -⟩ := of_endOfTurn hstep
      · exact ⟨hflag, hkey, hexecuting⟩
      · simp [hexecuting] at hquiet
  | console command =>
      obtain rfl := Option.some.inj hstep
      obtain ⟨_, _, _, _, _, _, _, heq⟩ := executeCommand_eq state command
      rw [heq]
      exact ⟨hflag, hkey, hexecuting⟩

/-- **No unlock is lost** that is acknowledged while an ESI executes, when the step
that processes the result of the statement keeps it. -/
theorem handedOver_of_runs {history events : List Event}
    {asked acknowledged before after : PlanificadorState config} {result scriptEnd : Received}
    {meanwhile : List Command} {unreachable : List ℤ}
    (hreach : (mainStep config).FreeRuns (PlanificadorState.init config) history asked)
    (hexecuting : asked.gExecutionQueue ≠ [])
    (hunlock : coordinatorBranch asked (.unlockKey key) =
      some (acknowledged, some .keyUnlockedSuccesfully))
    (hrun : (mainStep config).Runs (fun _ event => awaitsResult event = true) acknowledged
      events before)
    (hstored : StoredByExecuting before key) (hresult : result ≠ .code .iAmBlocked)
    (hkeeps : keepsUnlock before key result scriptEnd meanwhile unreachable = true)
    (hstep : mainStep config before (.executingEsi result scriptEnd meanwhile unreachable) =
      some after) :
    HandedOver before after key := by
  have hpending : UnlockPending key before :=
    hrun.invariant (UnlockPending key) (fun hinv hawaits hstep => hinv.mainStep hawaits hstep)
      (unlockPending_of_unlockKey hexecuting hunlock)
  have hgenuine : before.dispatcher.Genuine (-1) := by
    have hasked := genuine_of_runs hreach (genuine_init config)
    have hacknowledged : acknowledged.dispatcher.Genuine (-1) :=
      (performs_coordinatorBranch hunlock).genuine hasked
    exact genuine_of_runs hrun hacknowledged
  exact .of_delivered (delivered_of_executingEsiBranch hgenuine hpending.flag hpending.key hstored
    hresult hkeeps hstep)

/-- ESI 10 takes `k`; then 11 waits for it and 12 takes `j`, by console; then 10 is
about to store `k`. -/
def aboutToStore : List Event :=
  [.newClient 10 true, .endOfTurn [], .coordinator (.isThisKeyBlocked keyK),
    .coordinator .blockKey,
    .executingEsi (.code .executionSuccess) (.code .didntFinishScript) [] [],
    .newClient 11 true, .newClient 12 true, .console (.bloquear keyK 2),
    .console (.bloquear keyJ 3),
    .executingEsi (.code .executionSuccess) (.code .didntFinishScript) [] [],
    .coordinator (.isThisKeyBlocked keyK), .coordinator .isKeyBlockedByExecutingEsi]

/-- The unlock of `k`, some events, and the result of the statement, lead from a
state through states with the properties given. -/
def storesThrough (asked : PlanificadorState (smallConfig .fifo)) (events : List Event)
    (check : PlanificadorState (smallConfig .fifo) → PlanificadorState (smallConfig .fifo) → Bool) :
    Bool :=
  (coordinatorBranch asked (.unlockKey keyK)).any fun acknowledged =>
    acknowledged.2 = some .keyUnlockedSuccesfully &&
      (((mainStep _).guarded fun _ => awaitsResult).execute acknowledged.1 events).any fun before =>
        (mainStep _ before (.executingEsi (.code .executionSuccess) (.code .didntFinishScript)
          [] [])).any (check before)

theorem of_storesThrough (events : List Event)
    (check : PlanificadorState (smallConfig .fifo) → PlanificadorState (smallConfig .fifo) → Bool)
    (hthrough : ((mainStep (smallConfig .fifo)).execute (PlanificadorState.init _)
      aboutToStore).any (fun asked => decide (asked.gExecutionQueue ≠ []) &&
        storesThrough asked events check) = true) :
    ∃ asked acknowledged before after,
      (mainStep (smallConfig .fifo)).FreeRuns (PlanificadorState.init _) aboutToStore asked ∧
      asked.gExecutionQueue ≠ [] ∧
      coordinatorBranch asked (.unlockKey keyK) =
        some (acknowledged, some .keyUnlockedSuccesfully) ∧
      (mainStep _).Runs (fun _ event => awaitsResult event = true) acknowledged events before ∧
      mainStep _ before (.executingEsi (.code .executionSuccess) (.code .didntFinishScript)
        [] []) = some after ∧
      check before after = true := by
  obtain ⟨asked, hrun, hcheck⟩ := PartialStep.exists_run_of_execute _ _ _ _ hthrough
  simp only [storesThrough, Bool.and_eq_true, decide_eq_true_eq, Option.any_eq_true] at hcheck
  obtain ⟨hexecuting, ⟨acknowledged, answer⟩, hunlock, rfl, before, hexec, after, hstep,
    hcheck⟩ := hcheck
  exact ⟨asked, acknowledged, before, after, hrun, hexecuting, hunlock,
    PartialStep.runs_of_guarded (PartialStep.runs_of_execute hexec), hstep, hcheck⟩

/-- The ESI that waits for the key is woken by the unlock. -/
theorem handedOver_of_runs_store :
    ∃ before after : PlanificadorState (smallConfig .fifo),
      heirOf before keyK = some 11 ∧ HandedOver before after keyK := by
  obtain ⟨asked, acknowledged, before, after, hreach, hexecuting, hunlock, hrun, hstep, hcheck⟩ :=
    of_storesThrough [.console .continuar] (fun before _ =>
      decide (heirOf before keyK = some 11) && decide (StoredByExecuting before keyK) &&
        keepsUnlock before keyK (.code .executionSuccess) (.code .didntFinishScript) [] [])
      (by decide)
  simp only [Bool.and_eq_true, decide_eq_true_eq] at hcheck
  obtain ⟨⟨hheir, hstored⟩, hkeeps⟩ := hcheck
  exact ⟨before, after, hheir, handedOver_of_runs hreach hexecuting hunlock hrun hstored
    (by decide) hkeeps hstep⟩

/-- The kill of another ESI that owns a key clears the flag of the unlock: the key
stays with the ESI that stored it. -/
theorem not_handedOver :
    ¬ ∀ (config : Config) (key : CString) (history events : List Event)
      (asked acknowledged before after : PlanificadorState config) (result scriptEnd : Received)
      (meanwhile : List Command) (unreachable : List ℤ),
      (mainStep config).FreeRuns (PlanificadorState.init config) history asked →
      asked.gExecutionQueue ≠ [] →
      coordinatorBranch asked (.unlockKey key) =
        some (acknowledged, some .keyUnlockedSuccesfully) →
      (mainStep config).Runs (fun _ event => awaitsResult event = true) acknowledged events before →
      StoredByExecuting before key → result ≠ .code .iAmBlocked →
      mainStep config before (.executingEsi result scriptEnd meanwhile unreachable) = some after →
      HandedOver before after key := by
  intro hclaim
  obtain ⟨asked, acknowledged, before, after, hreach, hexecuting, hunlock, hrun, hstep, hcheck⟩ :=
    of_storesThrough [.console (.kill 3)] (fun before after =>
      decide (StoredByExecuting before keyK) &&
        after.gLockedKeys.any fun blocker =>
          decide (blocker.key = keyK ∧ blocker.esiId = before.executingEsi)) (by decide)
  simp only [Bool.and_eq_true, decide_eq_true_eq, List.any_eq_true] at hcheck
  obtain ⟨hstored, blocker, hmem, howner⟩ := hcheck
  exact (hclaim _ _ _ _ asked acknowledged before after _ _ _ _ hreach hexecuting hunlock hrun
    hstored (by decide) hstep).freed blocker hmem howner

end SockMyPort.Planificador
