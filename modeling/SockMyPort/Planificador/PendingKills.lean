/-
# Pending kills

The console names the ESIs to kill at one time; `burn_esi_corpses` kills them one after
the other at another, and leaves out one mention of the ESI that has just finished. Every
death has to find its ESI registered, so that the list may name only ESIs that still exist,
and each of them once.
-/

import SockMyPort.Planificador.Removal

namespace SockMyPort.Planificador

open SockMyPort.Commons Library

variable {config : Config} {state next : PlanificadorState config} {fd : ℤ} {esis : List ℤ}

/-! ## The property -/

/-- The ESI is named by a pending kill and has not just finished its script. -/
def Named (state : PlanificadorState config) (fd : ℤ) : Prop :=
  fd ∈ state.gNewKilledEsis ∧ ¬ (state.finishedEsiFlag = true ∧ fd = state.executingEsi)

/-- The pending kills have been done. -/
structure Burnt (state next : PlanificadorState config) : Prop where
  /-- No kill is pending. -/
  gNewKilledEsis : next.gNewKilledEsis = []
  /-- Exactly the named ESIs have left the queues. -/
  queues : ∀ fd, fd ∈ next.queues ↔ fd ∈ state.queues ∧ ¬ Named state fd
  /-- Those that were alive have finished, each of them once. -/
  finished : ∃ dead, next.gFinishedQueue = state.gFinishedQueue ++ dead ∧ dead.Nodup ∧
    ∀ fd, fd ∈ dead ↔ fd ∈ state.ids ∧ Named state fd

/-- None of the ESIs is the first that waits for one of its own keys once the ESIs before
it are gone. -/
def HeirsElsewhere (state : PlanificadorState config) : List ℤ → List ℤ → Prop
  | _, [] => True
  | gone, fd :: esis => ¬ OwnHeir state gone fd ∧ HeirsElsewhere state (fd :: gone) esis

instance decidableHeirsElsewhere (state : PlanificadorState config) :
    ∀ gone esis : List ℤ, Decidable (HeirsElsewhere state gone esis)
  | _, [] => .isTrue trivial
  | gone, fd :: esis =>
      have := decidableHeirsElsewhere state (fd :: gone) esis
      inferInstanceAs (Decidable (_ ∧ _))

/-- The pending kills name registered ESIs, each of them once, and no ESI that becomes its
own heir. -/
structure Burnable (state : PlanificadorState config) : Prop where
  /-- The name of a spared ESI can be read. -/
  spared : state.executingEsi ∈ state.gNewKilledEsis → state.finishedEsiFlag = true →
    state.executingEsi ∈ state.ids
  known : ∀ fd ∈ condemned state, fd ∈ state.ids
  once : (condemned state).Nodup
  /-- An ESI that has just finished is named once at most. -/
  finishing : state.finishedEsiFlag = true → state.executingEsi ∉ condemned state
  heirs : HeirsElsewhere state [] (condemned state)

/-! ## One death -/

/-- An ESI that is not its own heir dies in an orderly way. -/
theorem Sound.orderly_die (hsound : Sound state) (hreal : fd ≠ -1) (hnot : ¬ OwnHeir state [] fd) :
    state.dispatcher.Orderly (.die fd) := by
  have hwaiting : ((state.dispatcher.bury fd).waiting.map Wait.process).Nodup := by
    simp only [Dispatcher.bury, PlanificadorState.dispatcher, List.map_map]
    exact hsound.waits.once
  show fd ∉ (state.dispatcher.bury fd).heirs (state.dispatcher.keysOf fd)
  rw [keysOf_dispatcher, Dispatcher.heirs_eq_filterMap hwaiting (hsound.nodup_keysOf hreal)]
  intro hheir
  obtain ⟨key, hkey, hfirst⟩ := List.mem_filterMap.mp hheir
  have hsame : (state.dispatcher.bury fd).firstWaiter key = state.dispatcher.firstWaiter key := rfl
  refine hnot ⟨key, hkey, ?_⟩
  rw [hsame, firstWaiter_dispatcher] at hfirst
  simpa [firstWaiting] using hfirst

theorem Sound.of_sockMyPort (hsound : Sound state) (hsock : sockMyPort state fd = some next)
    (hnot : ¬ OwnHeir state [] fd) : Sound next := by
  have hreal : fd ≠ -1 := fun heq =>
    hsound.not_mem_ids (heq ▸ (Planificador.of_sockMyPort hsock).1)
  have hexec := performs_sockMyPort hsock hsound.partition.genuine
  obtain ⟨after, hperform, hafter⟩ := Option.bind_eq_some_iff.mp hexec
  obtain rfl := Option.some.inj hafter
  have hpartitioned :=
    hsound.partition.partitioned.perform (hsound.orderly_die hreal hnot) hperform
  have hholds : state.dispatcher.HoldsFree (.die fd) := trivial
  exact ⟨⟨genuine_of_execute hsound.partition.genuine hexec, hpartitioned⟩,
    hsound.owned.perform hholds hperform⟩

/-! ## Deaths in any state -/

theorem ids_sockMyPort (hsock : sockMyPort state fd = some next) (hnodup : state.ids.Nodup) :
    next.ids = state.ids.filter fun other => other ≠ fd := by
  obtain ⟨-, released, hkeys, rfl⟩ := of_sockMyPort hsock
  have hids : released.ids = state.ids := (waking_releaseKeys hkeys).ids
  rw [← hids] at hnodup ⊢
  exact ids_forgottenState hnodup

/-- Releases wake ESIs and let none finish. -/
theorem grows_releaseKeys {keys : List CString} (hkeys : releaseKeys state keys = some next) :
    next.gFinishedQueue = state.gFinishedQueue ∧ state.gReadyQueue <+: next.gReadyQueue := by
  refine PartialStep.foldlM_invariant (fun released => released.gFinishedQueue =
    state.gFinishedQueue ∧ state.gReadyQueue <+: released.gReadyQueue) ?_ hkeys
    ⟨rfl, List.prefix_rfl⟩
  rintro released key after ⟨hfinished, hready⟩ hupdate
  obtain ⟨-, rfl⟩ | ⟨-, -, rfl⟩ := of_updateBlockedEsiQueue hupdate
  · exact ⟨hfinished, hready⟩
  · exact ⟨hfinished, hready.trans (List.prefix_append _ _)⟩

/-- A death adds to the queue of finished ESIs, and leaves the other ready ESIs there. -/
theorem grows_sockMyPort (hsock : sockMyPort state fd = some next) :
    state.gFinishedQueue <+: next.gFinishedQueue ∧
      ∀ other ∈ state.gReadyQueue, other ≠ fd → other ∈ next.gReadyQueue := by
  obtain ⟨-, released, hkeys, rfl⟩ := of_sockMyPort hsock
  obtain ⟨hfinished, hready⟩ := grows_releaseKeys hkeys
  refine ⟨⟨_, hfinished.symm⟩, fun other hmem hne => hready.subset ?_⟩
  exact (List.mem_eraseP_of_neg (by simp [hne])).mpr hmem

theorem grows_sockMyPorts (hburn : sockMyPorts state esis = some next) :
    state.gFinishedQueue <+: next.gFinishedQueue ∧
      ∀ other ∈ state.gReadyQueue, other ∉ esis → other ∈ next.gReadyQueue := by
  induction esis generalizing state with
  | nil =>
      obtain rfl := Option.some.inj hburn
      exact ⟨List.prefix_rfl, fun _ hmem _ => hmem⟩
  | cons fd esis ih =>
      obtain ⟨middle, hsock, hrest⟩ := Option.bind_eq_some_iff.mp hburn
      obtain ⟨hfinished, hready⟩ := grows_sockMyPort hsock
      obtain ⟨hlater, hstays⟩ := ih hrest
      refine ⟨hfinished.trans hlater, fun other hmem hnot => ?_⟩
      obtain ⟨hne, hnot⟩ := not_or.mp fun hmem => hnot (List.mem_cons.mpr hmem)
      exact hstays other (hready other hmem hne) hnot

/-- The program survives deaths of registered ESIs only, each of which dies once. -/
theorem of_sockMyPorts (hburn : sockMyPorts state esis = some next) (hnodup : state.ids.Nodup) :
    esis.Nodup ∧ ∀ fd ∈ esis, fd ∈ state.ids := by
  induction esis generalizing state with
  | nil => exact ⟨List.nodup_nil, fun _ hmem => absurd hmem List.not_mem_nil⟩
  | cons fd esis ih =>
      obtain ⟨middle, hsock, hrest⟩ := Option.bind_eq_some_iff.mp hburn
      have hids := ids_sockMyPort hsock hnodup
      obtain ⟨honce, hknown⟩ := ih hrest (hids ▸ hnodup.filter _)
      have hlater : ∀ other ∈ esis, other ∈ state.ids ∧ other ≠ fd := fun other hmem => by
        simpa [hids] using hknown other hmem
      refine ⟨List.nodup_cons.mpr ⟨fun hmem => (hlater fd hmem).2 rfl, honce⟩, ?_⟩
      rintro other (_ | ⟨_, hmem⟩)
      · exact (Planificador.of_sockMyPort hsock).1
      · exact (hlater other hmem).1

/-! ## The heirs after a death -/

/-- Who waits for a key of another ESI is not woken by a death. -/
theorem Sound.firstWaiting_died (hsound : Sound state) {dead : ℤ} (hreal : dead ≠ -1)
    (hdied : Died state next dead (wokenBy state dead))
    {blocker : KeyBlocker} (hmem : blocker ∈ state.gLockedKeys) (hne : blocker.esiId ≠ dead)
    (gone : List ℤ) :
    firstWaiting next gone blocker.key = firstWaiting state (gone ++ [dead]) blocker.key := by
  rw [firstWaiting, firstWaiting, hdied.gEsisSexpectingKeys, List.filter_filter, List.find?_filter]
  refine congrArg _ (List.find?_congr fun sexpecting hwait => ?_)
  by_cases hkey : sexpecting.key = blocker.key
  · have hstays : sexpecting.esiFd ∉ wokenBy state dead := fun hheir => by
      obtain ⟨key, hown, hfirst⟩ := List.mem_filterMap.mp hheir
      obtain ⟨node, hnode, rfl, hfd, -⟩ := exists_wait_of_firstWaiting hfirst
      obtain rfl := List.inj_on_of_nodup_map hsound.waits.once hnode hwait hfd
      rw [hkey] at hown
      exact hne ((hsound.mem_keysOf_iff hreal hmem).mp hown)
    simp [hkey, hstays, and_comm]
  · simp [hkey]

theorem Sound.ownHeir_died (hsound : Sound state) {dead : ℤ} (hreal : dead ≠ -1)
    (hdied : Died state next dead (wokenBy state dead))
    (hne : fd ≠ dead) (gone : List ℤ) :
    OwnHeir next gone fd ↔ OwnHeir state (gone ++ [dead]) fd := by
  have hkeys : keysOf next.gLockedKeys fd = keysOf state.gLockedKeys fd := by
    rw [keysOf, keysOf, hdied.gLockedKeys, List.filter_filter]
    refine congrArg _ (List.filter_congr fun blocker _ => ?_)
    by_cases hfd : blocker.esiId = fd <;> simp [hfd, hne]
  rw [OwnHeir, OwnHeir, hkeys]
  refine exists_congr fun key => and_congr_right fun hkey => ?_
  obtain ⟨own, hown, rfl⟩ := List.mem_map.mp hkey
  obtain ⟨hmem, hfd⟩ := List.mem_filter.mp hown
  rw [hsound.firstWaiting_died hreal hdied hmem (of_decide_eq_true hfd ▸ hne)]

theorem Sound.heirsElsewhere_died (hsound : Sound state) {dead : ℤ} (hreal : dead ≠ -1)
    (hdied : Died state next dead (wokenBy state dead))
    (hnot : dead ∉ esis) (gone : List ℤ) :
    HeirsElsewhere next gone esis ↔ HeirsElsewhere state (gone ++ [dead]) esis := by
  induction esis generalizing gone with
  | nil => exact Iff.rfl
  | cons fd esis ih =>
      obtain ⟨hne, hnot⟩ := not_or.mp fun hmem => hnot (List.mem_cons.mpr hmem)
      exact and_congr (not_congr (hsound.ownHeir_died hreal hdied (Ne.symm hne) gone))
        (ih hnot (fd :: gone))

/-! ## Deaths one after the other -/

/-- ESIs that do not become their own heirs die one after the other. -/
theorem Sound.exists_sockMyPorts (hsound : Sound state) (hknown : ∀ fd ∈ esis, fd ∈ state.ids)
    (honce : esis.Nodup) (hheirs : HeirsElsewhere state [] esis) :
    ∃ next, sockMyPorts state esis = some next ∧ Sound next ∧
      next.gFinishedQueue = state.gFinishedQueue ++ esis ∧
      ∀ fd, fd ∈ next.ids ↔ fd ∈ state.ids ∧ fd ∉ esis := by
  induction esis generalizing state with
  | nil =>
      refine ⟨state, rfl, hsound, (List.append_nil _).symm, fun fd => ?_⟩
      simp
  | cons dead esis ih =>
      obtain ⟨hnot, honce⟩ := List.nodup_cons.mp honce
      have hmem := hknown dead List.mem_cons_self
      have hreal : dead ≠ -1 := fun heq => hsound.not_mem_ids (heq ▸ hmem)
      obtain ⟨middle, hsock, hdied⟩ := hsound.exists_sockMyPort hmem
      have hlater : ∀ fd ∈ esis, fd ∈ middle.ids := fun fd hfd => by
        have hne : fd ≠ dead := fun heq => hnot (heq ▸ hfd)
        simpa [hdied.ids, hne] using hknown fd (List.mem_cons_of_mem _ hfd)
      obtain ⟨next, hrest, hnext, hfinished, hids⟩ := ih (hsound.of_sockMyPort hsock hheirs.1)
        hlater honce ((hsound.heirsElsewhere_died hreal hdied hnot []).mpr hheirs.2)
      refine ⟨next, Option.bind_eq_some_iff.mpr ⟨middle, hsock, hrest⟩, hnext, ?_, fun fd => ?_⟩
      · rw [hfinished, hdied.gFinishedQueue, List.append_assoc]
        rfl
      · rw [hids, hdied.ids]
        simp [and_assoc]

/-- When the program survives, and no ESI that died is in a queue afterwards, each ESI of the
list died once and none was its own heir. -/
theorem Sound.of_sockMyPorts (hsound : Sound state) (hburn : sockMyPorts state esis = some next)
    (hgone : ∀ dead, next.gFinishedQueue = state.gFinishedQueue ++ dead →
      ∀ fd ∈ dead, fd ∉ next.queues) :
    next.gFinishedQueue = state.gFinishedQueue ++ esis ∧ HeirsElsewhere state [] esis := by
  induction esis generalizing state with
  | nil =>
      obtain rfl := Option.some.inj hburn
      exact ⟨(List.append_nil _).symm, trivial⟩
  | cons fd esis ih =>
      obtain ⟨honce, hknown⟩ := Planificador.of_sockMyPorts hburn hsound.nodup_ids
      obtain ⟨hnot, -⟩ := List.nodup_cons.mp honce
      have hmem := hknown fd List.mem_cons_self
      have hreal : fd ≠ -1 := fun heq => hsound.not_mem_ids (heq ▸ hmem)
      obtain ⟨middle, hsock, hrest⟩ := Option.bind_eq_some_iff.mp hburn
      obtain ⟨other, hother, hdied⟩ := hsound.exists_sockMyPort hmem
      obtain rfl := Option.some.inj (hsock.symm.trans hother)
      obtain ⟨⟨later, hlater⟩, hready⟩ := grows_sockMyPorts hrest
      have happend : ∀ dead, next.gFinishedQueue = middle.gFinishedQueue ++ dead →
          next.gFinishedQueue = state.gFinishedQueue ++ fd :: dead := fun dead hdead => by
        rw [hdead, hdied.gFinishedQueue, List.append_assoc]
        rfl
      have hheir : ¬ OwnHeir state [] fd := by
        rintro ⟨key, hkey, hfirst⟩
        have hwoken : fd ∈ middle.gReadyQueue := by
          rw [hdied.gReadyQueue]
          exact List.mem_append_right _ (List.mem_filterMap.mpr ⟨key, hkey, hfirst⟩)
        refine hgone _ (happend _ hlater.symm) fd List.mem_cons_self ?_
        simp [PlanificadorState.queues, hready fd hwoken hnot]
      obtain ⟨hfinished, hheirs⟩ := ih (hsound.of_sockMyPort hsock hheir) hrest
        fun dead hdead other hmem =>
          hgone _ (happend dead hdead) other (List.mem_cons_of_mem _ hmem)
      exact ⟨happend esis hfinished, hheir,
        (hsound.heirsElsewhere_died hreal hdied hnot []).mp hheirs⟩

/-! ## The pending kills -/

/-- The list of pending kills says nothing about queues and keys. -/
theorem Sound.kill (hsound : Sound state) (esis : List ℤ) :
    Sound { state with gNewKilledEsis := esis } :=
  ⟨⟨hsound.partition.genuine, hsound.partition.partitioned⟩, hsound.owned⟩

theorem heirsElsewhere_kill {gone named : List ℤ} :
    HeirsElsewhere { state with gNewKilledEsis := named } gone esis ↔
      HeirsElsewhere state gone esis := by
  induction esis generalizing gone with
  | nil => exact Iff.rfl
  | cons fd esis ih => exact and_congr Iff.rfl ih

/-- The program survives the pending kills when it survives the deaths, and can read the
name of an ESI that it spares. -/
theorem burnEsiCorpses_eq_some_iff :
    burnEsiCorpses state state.executingEsi = some next ↔
      (state.executingEsi ∈ state.gNewKilledEsis → state.finishedEsiFlag = true →
        state.executingEsi ∈ state.ids) ∧
      ∃ burnt, sockMyPorts { state with gNewKilledEsis := condemned state } (condemned state) =
          some burnt ∧
        next = { burnt with gNewKilledEsis := [], killedEsiFlag := false } := by
  constructor
  · intro hburn
    refine ⟨fun hnamed hfinished => ?_, of_burnEsiCorpses hburn⟩
    have hspare : (state.gNewKilledEsis.contains state.executingEsi &&
        state.finishedEsiFlag) = true := by simp [hnamed, hfinished]
    simp only [burnEsiCorpses, hspare, if_true] at hburn
    obtain ⟨spared, hspared, -⟩ := Option.bind_eq_some_iff.mp hburn
    obtain ⟨logged, hlog, -⟩ := Option.map_eq_some_iff.mp hspared
    exact (of_logName hlog).2
  · rintro ⟨hspared, burnt, hburnt, rfl⟩
    by_cases hspare : (state.gNewKilledEsis.contains state.executingEsi &&
        state.finishedEsiFlag) = true
    · obtain ⟨hnamed, hfinished⟩ := (Bool.and_eq_true _ _).mp hspare
      have hmem := hspared (by simpa using hnamed) hfinished
      rw [condemned, if_pos hspare] at hburnt
      simp only [burnEsiCorpses, if_pos hspare, logName_of_mem hmem, Option.map_some,
        Option.bind_eq_bind, Option.bind_some, hburnt]
    · rw [condemned, if_neg hspare] at hburnt
      simp only [burnEsiCorpses, if_neg hspare, Option.bind_eq_bind, Option.bind_some]
      rw [show sockMyPorts state state.gNewKilledEsis = some burnt from hburnt, Option.bind_some]

/-- An ESI that has just finished and is not condemned is spared; any other ESI of the list is
condemned. -/
theorem mem_condemned_iff
    (hfinishing : state.finishedEsiFlag = true → state.executingEsi ∉ condemned state) :
    fd ∈ condemned state ↔ Named state fd := by
  by_cases hspare : (state.gNewKilledEsis.contains state.executingEsi &&
      state.finishedEsiFlag) = true
  · obtain ⟨-, hfinished⟩ := (Bool.and_eq_true _ _).mp hspare
    by_cases heq : fd = state.executingEsi
    · simp [Named, heq, hfinished, hfinishing hfinished]
    · rw [condemned, if_pos hspare, Named]
      simp [heq, listRemoveByCondition, List.mem_eraseP_of_neg]
  · rw [condemned, if_neg hspare, Named]
    refine (and_iff_left_of_imp fun hmem => ?_).symm
    rintro ⟨hfinished, rfl⟩
    exact hspare (by simp [hmem, hfinished])

/-- **The pending kills are done exactly when they name registered ESIs, each once, of which
none becomes its own heir.** -/
theorem Sound.burnt_iff (hsound : Sound state) :
    (∃ next, burnEsiCorpses state state.executingEsi = some next ∧ Burnt state next) ↔
      Burnable state := by
  have hstart : Sound { state with gNewKilledEsis := condemned state } :=
    hsound.kill (condemned state)
  constructor
  · rintro ⟨next, hburn, hburnt⟩
    obtain ⟨hspared, burnt, hdeaths, rfl⟩ := burnEsiCorpses_eq_some_iff.mp hburn
    obtain ⟨honce, hknown⟩ := Planificador.of_sockMyPorts hdeaths hsound.nodup_ids
    obtain ⟨dead, hfinished, -, hdead⟩ := hburnt.finished
    obtain ⟨hall, hheirs⟩ := hstart.of_sockMyPorts hdeaths fun other hother fd hmem hqueued => by
      obtain rfl := List.append_cancel_left (hfinished.symm.trans hother)
      exact ((hburnt.queues fd).mp hqueued).2 ((hdead fd).mp hmem).2
    obtain rfl := List.append_cancel_left (hfinished.symm.trans hall)
    refine ⟨hspared, hknown, honce, fun hflag hmem => ?_, heirsElsewhere_kill.mp hheirs⟩
    exact ((hdead _).mp hmem).2.2 ⟨hflag, rfl⟩
  · intro hburnable
    have hnamed : ∀ fd, fd ∈ condemned state ↔ Named state fd := fun fd =>
      mem_condemned_iff hburnable.finishing
    obtain ⟨burnt, hdeaths, hnext, hfinished, hids⟩ :=
      hstart.exists_sockMyPorts hburnable.known hburnable.once
        (heirsElsewhere_kill.mpr hburnable.heirs)
    refine ⟨_, burnEsiCorpses_eq_some_iff.mpr ⟨hburnable.spared, burnt, hdeaths, rfl⟩, rfl,
      fun fd => ?_, condemned state, hfinished, hburnable.once, fun fd => ?_⟩
    · rw [← hnamed]
      exact (hnext.perm_queues.mem_iff.trans (hids fd)).trans
        (and_congr_left fun _ => hsound.perm_queues.mem_iff.symm)
    · rw [← hnamed]
      exact ⟨fun hmem => ⟨hburnable.known fd hmem, hmem⟩, And.right⟩

/-! ## The result -/

instance (state : PlanificadorState config) : Decidable (Burnable state) :=
  decidable_of_iff ((state.executingEsi ∈ state.gNewKilledEsis → state.finishedEsiFlag = true →
      state.executingEsi ∈ state.ids) ∧ (∀ fd ∈ condemned state, fd ∈ state.ids) ∧
      (condemned state).Nodup ∧
      (state.finishedEsiFlag = true → state.executingEsi ∉ condemned state) ∧
      HeirsElsewhere state [] (condemned state))
    ⟨fun ⟨hspared, hknown, honce, hfinishing, hheirs⟩ =>
      ⟨hspared, hknown, honce, hfinishing, hheirs⟩,
    fun hburnable => ⟨hburnable.spared, hburnable.known, hburnable.once, hburnable.finishing,
      hburnable.heirs⟩⟩

/-- The state in which the pending kills are done: at the end of a turn, or after a result has
been read. -/
def burnState (reached : PlanificadorState config) :
    Option (Received × Received) → Option (PlanificadorState config)
  | none => some reached
  | some (result, scriptEnd) =>
      if reached.connectedFds.contains reached.executingEsi then
        receiveResult reached result scriptEnd
      else none

/-- The operations of the result are orderly. -/
def orderlyReading (reached : PlanificadorState config) : Option (Received × Received) → Bool
  | none => true
  | some (result, scriptEnd) =>
      performKey.allows (fun dispatcher operation => decide (dispatcher.Orderly operation))
        reached.dispatcher (receiveOperations reached result scriptEnd)

theorem Sound.burnState {reading : Option (Received × Received)} (hsound : Sound state)
    (horderly : orderlyReading state reading = true)
    (hburns : Planificador.burnState state reading = some next) : Sound next := by
  cases reading with
  | none => exact Option.some.inj hburns ▸ hsound
  | some received =>
      obtain ⟨result, scriptEnd⟩ := received
      obtain ⟨hconnected, hreceive⟩ := Option.ite_none_right_eq_some.mp hburns
      have hgenuine := hsound.partition.genuine
      have hreal : state.executingEsi ≠ -1 := fun heq =>
        hgenuine.connected (heq ▸ Multiset.mem_coe.mpr (by simpa using hconnected))
      have hexec := performs_receiveResult hreal hreceive hgenuine
      refine ⟨⟨genuine_of_execute hgenuine hexec, ?_⟩, ?_⟩
      · exact (PartialStep.runs_of_allows horderly hexec).invariant _
          (fun hpart hok hperform => hpart.perform (of_decide_eq_true hok) hperform)
          hsound.partition.partitioned
      · exact keep_of_holdsFree (fun howned hholds hperform => howned.perform hholds hperform)
          (fun operation hmem dispatcher => holdsFree_receiveOperations hmem) hexec hsound.owned

/-- **Pending kills.** After a run of orderly events that block free keys, whatever the console
has named, the pending kills are done exactly when they name registered ESIs, each of them
once, of which none becomes its own heir. -/
theorem burnt_iff_of_runs {reached : PlanificadorState config} {events : List Event}
    {reading : Option (Received × Received)}
    (hrun : (mainStep config).Runs (fun state event => soundEvent state event = true)
      (PlanificadorState.init config) events reached)
    (horderly : orderlyReading reached reading = true)
    (hburns : burnState reached reading = some state) (named : List ℤ) :
    (∃ next, burnEsiCorpses { state with gNewKilledEsis := named } state.executingEsi =
        some next ∧ Burnt { state with gNewKilledEsis := named } next) ↔
      Burnable { state with gNewKilledEsis := named } :=
  (((sound_of_runs hrun).burnState horderly hburns).kill named).burnt_iff

/-- Three ESIs connect, and the console names the executing one and another. -/
def killedTwo : List Event :=
  [.newClient 10 true, .newClient 11 true, .newClient 12 true, .endOfTurn [],
    .console (.kill 1), .console (.kill 2)]

/-- The last statement of the executing ESI succeeds. -/
def lastStatement : Option (Received × Received) :=
  some (.code .executionSuccess, .code .finishedScript)

/-- The executing ESI finishes and is spared; the other is killed. -/
theorem burnt_killedTwo :
    ∃ state next : PlanificadorState (smallConfig .fifo), state.gNewKilledEsis = [10, 11] ∧
      burnEsiCorpses state state.executingEsi = some next ∧ Burnt state next ∧
      ¬ Named state 10 := by
  obtain ⟨reached, hrun, hcheck⟩ := PartialStep.exists_run_of_execute
    ((mainStep (smallConfig .fifo)).guarded soundEvent) (PlanificadorState.init _) killedTwo
    (fun reached => orderlyReading reached lastStatement &&
      (burnState reached lastStatement).any fun state =>
        decide (Burnable state ∧ state.gNewKilledEsis = [10, 11] ∧
          state.finishedEsiFlag = true ∧ state.executingEsi = 10)) (by decide +kernel)
  obtain ⟨horderly, hcheck⟩ := (Bool.and_eq_true _ _).mp hcheck
  obtain ⟨state, hburns, hcheck⟩ := (Option.any_eq_true _ _).mp hcheck
  obtain ⟨hburnable, hnamed, hfinished, hexecuting⟩ := of_decide_eq_true hcheck
  obtain ⟨next, hburn, hburnt⟩ := (burnt_iff_of_runs (PartialStep.runs_of_guarded hrun) horderly
    hburns state.gNewKilledEsis).mpr hburnable
  exact ⟨state, next, hnamed, hburn, hburnt, fun h => h.2 ⟨hfinished, hexecuting.symm⟩⟩

/-- Who is named twice is looked up after its death. -/
theorem not_burnt_killedTwice :
    ¬ ∀ (config : Config) (reached state : PlanificadorState config) (events : List Event)
      (reading : Option (Received × Received)),
      (mainStep config).FreeRuns (PlanificadorState.init config) events reached →
        burnState reached reading = some state →
          ∃ next, burnEsiCorpses state state.executingEsi = some next ∧ Burnt state next := by
  intro hclaim
  obtain ⟨reached, hrun, hcheck⟩ := PartialStep.exists_run_of_execute
    (mainStep (smallConfig .fifo)) (PlanificadorState.init _)
    [.newClient 10 true, .console (.kill 1), .console (.kill 1)]
    (fun state => (burnEsiCorpses state state.executingEsi).isNone) (by decide +kernel)
  obtain ⟨next, hburn, -⟩ := hclaim _ reached reached _ none hrun rfl
  rw [hburn] at hcheck
  cases hcheck

end SockMyPort.Planificador
