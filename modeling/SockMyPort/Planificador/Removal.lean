/-
# The removal of an ESI

`sock_my_port` takes an ESI out of its queue, releases its keys one after the other and
forgets it. A release wakes the first ESI that waits for the key, also when that is the
dying ESI itself, which then comes back to the ready queue without being registered.
-/

import SockMyPort.Library.Handover
import SockMyPort.Planificador.Ownership
import SockMyPort.Planificador.QueuePartition

namespace SockMyPort.Planificador

open SockMyPort.Commons Library

variable {config : Config} {state next : PlanificadorState config} {fd : ℤ} {key : CString}
  {keys : List CString}

/-! ## The property -/

/-- The ESI that has waited longest for a key, some ESIs apart. -/
def firstWaiting (state : PlanificadorState config) (gone : List ℤ) (key : CString) : Option ℤ :=
  (state.gEsisSexpectingKeys.find? fun sexpecting =>
    sexpecting.key = key ∧ sexpecting.esiFd ∉ gone).map EsiSexpectingKey.esiFd

/-- For every key that an ESI owns the other ESI that has waited longest for it. -/
def heirsOf (state : PlanificadorState config) (fd : ℤ) : List ℤ :=
  (keysOf state.gLockedKeys fd).filterMap (firstWaiting state [fd])

/-- The ESIs that the release of the keys of an ESI wakes, which may be itself. -/
def wokenBy (state : PlanificadorState config) (fd : ℤ) : List ℤ :=
  (keysOf state.gLockedKeys fd).filterMap (firstWaiting state [])

/-- An ESI has been removed completely. Lists are compared, so that the order of what stays
does not change either. -/
structure Removed (state next : PlanificadorState config) (fd : ℤ) : Prop where
  /-- It is in no queue. -/
  queues : fd ∉ next.queues
  /-- It is not registered. -/
  ids : fd ∉ next.ids
  /-- It owns no key. -/
  owns : ∀ blocker ∈ next.gLockedKeys, blocker.esiId ≠ fd
  /-- It waits for nothing. -/
  waits : ∀ sexpecting ∈ next.gEsisSexpectingKeys, sexpecting.esiFd ≠ fd
  /-- The keys that it owned are unlocked. -/
  unlocked : ∀ key ∈ keysOf state.gLockedKeys fd, key ∉ next.keys
  /-- The heirs were blocked; they are ready now, and wait for nothing. -/
  heirs : ∀ heir ∈ heirsOf state fd, heir ∈ state.gBlockedQueue
  gReadyQueue : next.gReadyQueue =
    (state.gReadyQueue.filter fun other => other ≠ fd) ++ heirsOf state fd
  gBlockedQueue : next.gBlockedQueue =
    state.gBlockedQueue.filter fun other => other ≠ fd ∧ other ∉ heirsOf state fd
  gEsisSexpectingKeys : next.gEsisSexpectingKeys =
    state.gEsisSexpectingKeys.filter fun sexpecting =>
      sexpecting.esiFd ≠ fd ∧ sexpecting.esiFd ∉ heirsOf state fd
  /-- The other locks and queues stay as they are. -/
  gLockedKeys : next.gLockedKeys = state.gLockedKeys.filter fun blocker => blocker.esiId ≠ fd
  gNewQueue : next.gNewQueue = state.gNewQueue.filter fun other => other ≠ fd
  gExecutionQueue : next.gExecutionQueue = state.gExecutionQueue.filter fun other => other ≠ fd

/-- Once some other ESIs are gone, an ESI is the first that waits for one of its own keys. -/
def OwnHeir (state : PlanificadorState config) (gone : List ℤ) (fd : ℤ) : Prop :=
  ∃ key ∈ keysOf state.gLockedKeys fd, firstWaiting state gone key = some fd

instance (state : PlanificadorState config) (gone : List ℤ) (fd : ℤ) :
    Decidable (OwnHeir state gone fd) :=
  inferInstanceAs (Decidable (∃ key ∈ _, _))

/-! ## Releasing keys -/

/-- Every ESI that waits is registered and waits once. -/
structure Waits (state : PlanificadorState config) : Prop where
  once : (state.gEsisSexpectingKeys.map EsiSexpectingKey.esiFd).Nodup
  real : ∀ sexpecting ∈ state.gEsisSexpectingKeys, sexpecting.esiFd ≠ -1
  known : ∀ sexpecting ∈ state.gEsisSexpectingKeys, sexpecting.esiFd ∈ state.ids

/-- What the release of some keys does; `heirs` are the ESIs that it wakes. -/
structure Released (state next : PlanificadorState config) (keys : List CString)
    (heirs : List ℤ) : Prop where
  waking : Waking state next
  gFinishedQueue : next.gFinishedQueue = state.gFinishedQueue
  gEsisSexpectingKeys : next.gEsisSexpectingKeys =
    state.gEsisSexpectingKeys.filter fun sexpecting => sexpecting.esiFd ∉ heirs
  gBlockedQueue : next.gBlockedQueue = state.gBlockedQueue.filter fun other => other ∉ heirs
  gReadyQueue : next.gReadyQueue = state.gReadyQueue ++ heirs
  gLockedKeys : next.gLockedKeys = keys.foldl (fun locked key =>
    listRemoveByCondition locked fun blocker => blocker.key = key) state.gLockedKeys

theorem Waking.ids (hwaking : Waking state next) : next.ids = state.ids := by
  rw [PlanificadorState.ids, hwaking.gEsiBursts]
  rfl

/-- The node of the first ESI that waits for a key. -/
theorem exists_wait_of_firstWaiting {gone : List ℤ}
    (hfirst : firstWaiting state gone key = some fd) :
    ∃ sexpecting ∈ state.gEsisSexpectingKeys, sexpecting.key = key ∧ sexpecting.esiFd = fd ∧
      fd ∉ gone := by
  obtain ⟨sexpecting, hfind, rfl⟩ := Option.map_eq_some_iff.mp hfirst
  obtain ⟨hkey, hgone⟩ : sexpecting.key = key ∧ sexpecting.esiFd ∉ gone := by
    simpa using List.find?_some hfind
  exact ⟨sexpecting, List.mem_of_find?_eq_some hfind, hkey, rfl, hgone⟩

theorem unlockEsi_eq (state : PlanificadorState config) (key : CString) :
    (unlockEsi state.gEsisSexpectingKeys key).1 = (firstWaiting state [] key).getD (-1) := by
  have hsame : (fun sexpecting : EsiSexpectingKey =>
      decide (sexpecting.key = key ∧ sexpecting.esiFd ∉ ([] : List ℤ))) =
      fun sexpecting => decide (sexpecting.key = key) := by
    funext sexpecting
    simp
  rw [firstWaiting, hsame]
  simp only [unlockEsi]
  cases state.gEsisSexpectingKeys.find? fun sexpecting => sexpecting.key = key <;> rfl

theorem takeEsiAwayFromQueue_eq_filter {queue : List ℤ} (hnodup : queue.Nodup) :
    takeEsiAwayFromQueue queue fd = queue.filter fun other => other ≠ fd := by
  have hmap : (queue.map id).Nodup := by rwa [List.map_id]
  exact eraseP_eq_filter fd hmap

/-- The program survives every release. -/
theorem Waits.exists_updateBlockedEsiQueue (hwaits : Waits state) (key : CString)
    (flag : UnblockFlag) (wasAStore : Bool) :
    ∃ next, updateBlockedEsiQueue state key flag wasAStore = some next := by
  simp only [updateBlockedEsiQueue]
  split
  · exact ⟨_, rfl⟩
  · rename_i hne
    rw [unlockEsi_eq] at hne ⊢
    cases hfirst : firstWaiting state [] key with
    | none =>
        rw [hfirst] at hne
        exact absurd rfl hne
    | some heir =>
        obtain ⟨sexpecting, hmem, -, rfl, -⟩ := exists_wait_of_firstWaiting hfirst
        rw [Option.getD_some, logName_of_mem (by exact hwaits.known sexpecting hmem)]
        exact ⟨_, rfl⟩

/-- The release of one key. -/
theorem Waits.released_key (hwaits : Waits state) (hblocked : state.gBlockedQueue.Nodup)
    (hupdate : updateBlockedEsiQueue state key .updateBlockedEsiQueue true = some next) :
    Released state next [key] (firstWaiting state [] key).toList := by
  have hwaking := waking_updateBlockedEsiQueue hupdate
  cases hfirst : firstWaiting state [] key with
  | none =>
      have hnode : (unlockEsi state.gEsisSexpectingKeys key).2 = state.gEsisSexpectingKeys := by
        have hnone := unlockEsi_eq state key
        rw [hfirst] at hnone
        refine List.eraseP_of_forall_not fun sexpecting hmem heq => ?_
        have hfd := of_decide_eq_true heq
        exact hwaits.real sexpecting hmem (hfd.trans hnone)
      obtain ⟨-, rfl⟩ | ⟨hne, -⟩ := of_updateBlockedEsiQueue hupdate
      · refine ⟨hwaking, rfl, ?_, ?_, (List.append_nil _).symm, rfl⟩
        · exact hnode.trans (List.filter_eq_self.mpr fun _ _ => by simp).symm
        · exact (List.filter_eq_self.mpr fun _ _ => by simp).symm
      · rw [unlockEsi_eq, hfirst] at hne
        exact absurd rfl hne
  | some heir =>
      have hheir := unlockEsi_eq state key
      rw [hfirst, Option.getD_some] at hheir
      obtain ⟨sexpecting, hmem, -, rfl, -⟩ := exists_wait_of_firstWaiting hfirst
      obtain ⟨heq, -⟩ | ⟨-, -, rfl⟩ := of_updateBlockedEsiQueue hupdate
      · exact absurd (hheir.symm.trans heq) (hwaits.real sexpecting hmem)
      · rw [hheir] at hwaking ⊢
        refine ⟨hwaking, rfl, ?_, ?_, rfl, rfl⟩
        · refine Eq.trans ?_ ((eraseP_eq_filter sexpecting.esiFd hwaits.once).trans ?_)
          · show (unlockEsi state.gEsisSexpectingKeys key).2 = _
            rw [← hheir]
            rfl
          · exact List.filter_congr fun _ _ => by simp
        · refine (takeEsiAwayFromQueue_eq_filter hblocked).trans ?_
          exact List.filter_congr fun _ _ => by simp

theorem Waits.of_released {heirs : List ℤ} (hwaits : Waits state)
    (hreleased : Released state next keys heirs) : Waits next := by
  have hsub : next.gEsisSexpectingKeys.Sublist state.gEsisSexpectingKeys :=
    hreleased.gEsisSexpectingKeys ▸ List.filter_sublist
  refine ⟨hwaits.once.sublist (hsub.map _), fun sexpecting hmem => hwaits.real _ (hsub.subset hmem),
    fun sexpecting hmem => ?_⟩
  rw [hreleased.waking.ids]
  exact hwaits.known _ (hsub.subset hmem)

/-- A release does not change who waits for another key. -/
theorem Waits.firstWaiting_other (hwaits : Waits state) {other : CString}
    (hreleased : Released state next keys (firstWaiting state [] key).toList)
    (hne : other ≠ key) : firstWaiting next [] other = firstWaiting state [] other := by
  rw [firstWaiting, firstWaiting, hreleased.gEsisSexpectingKeys, List.find?_filter]
  refine congrArg _ (List.find?_congr fun sexpecting hmem => ?_)
  by_cases hkey : sexpecting.key = other
  · have hstays : sexpecting.esiFd ∉ (firstWaiting state [] key).toList := by
      intro hheir
      obtain ⟨node, hnode, hsame, hfd, -⟩ :=
        exists_wait_of_firstWaiting (Option.mem_toList.mp hheir)
      have heq := List.inj_on_of_nodup_map hwaits.once hnode hmem hfd
      exact hne (hkey.symm.trans (heq ▸ hsame))
    simp [hkey, hstays]
  · simp [hkey]

theorem filter_filter_not_mem {β : Type} (project : β → ℤ) (list : List β) (first second : List ℤ) :
    ((list.filter fun entry => project entry ∉ first).filter fun entry => project entry ∉ second) =
      list.filter fun entry => project entry ∉ first ++ second := by
  rw [List.filter_filter]
  refine List.filter_congr fun entry _ => ?_
  rw [← Bool.decide_and, decide_eq_decide, List.mem_append, not_or, and_comm]

/-- One release before others. -/
theorem Waits.released_cons {middle : PlanificadorState config} (hwaits : Waits state)
    (hkey : key ∉ keys)
    (hfirst : Released state middle [key] (firstWaiting state [] key).toList)
    (hrest : Released middle next keys (keys.filterMap (firstWaiting middle []))) :
    Released state next (key :: keys) ((key :: keys).filterMap (firstWaiting state [])) := by
  have hlater : keys.filterMap (firstWaiting middle []) =
      keys.filterMap (firstWaiting state []) :=
    List.filterMap_congr fun other hmem =>
      hwaits.firstWaiting_other hfirst fun heq => hkey (heq ▸ hmem)
  have hheirs : (key :: keys).filterMap (firstWaiting state []) =
      (firstWaiting state [] key).toList ++ keys.filterMap (firstWaiting middle []) := by
    rw [List.filterMap_cons, hlater]
    cases firstWaiting state [] key <;> rfl
  rw [hheirs]
  constructor
  case waking => exact hfirst.waking.trans hrest.waking
  case gFinishedQueue => exact hrest.gFinishedQueue.trans hfirst.gFinishedQueue
  case gEsisSexpectingKeys =>
    rw [hrest.gEsisSexpectingKeys, hfirst.gEsisSexpectingKeys]
    exact filter_filter_not_mem EsiSexpectingKey.esiFd _ _ _
  case gBlockedQueue =>
    rw [hrest.gBlockedQueue, hfirst.gBlockedQueue]
    exact filter_filter_not_mem id _ _ _
  case gReadyQueue => rw [hrest.gReadyQueue, hfirst.gReadyQueue, List.append_assoc]
  case gLockedKeys =>
    rw [hrest.gLockedKeys, hfirst.gLockedKeys]
    rfl

/-- **The release of keys** wakes the first ESI that waits for each of them. -/
theorem Waits.exists_releaseKeys (hwaits : Waits state) (hblocked : state.gBlockedQueue.Nodup)
    (hkeys : keys.Nodup) :
    ∃ next, releaseKeys state keys = some next ∧
      Released state next keys (keys.filterMap (firstWaiting state [])) := by
  induction keys generalizing state with
  | nil =>
      refine ⟨state, rfl, .refl state, rfl, ?_, ?_, (List.append_nil _).symm, rfl⟩
      · exact (List.filter_eq_self.mpr fun _ _ => by simp).symm
      · exact (List.filter_eq_self.mpr fun _ _ => by simp).symm
  | cons key keys ih =>
      obtain ⟨hkey, hkeys⟩ := List.nodup_cons.mp hkeys
      obtain ⟨middle, hupdate⟩ :=
        hwaits.exists_updateBlockedEsiQueue key .updateBlockedEsiQueue true
      have hfirst := hwaits.released_key hblocked hupdate
      obtain ⟨next, hnext, hrest⟩ := ih (hwaits.of_released hfirst)
        (hfirst.gBlockedQueue ▸ hblocked.filter _) hkeys
      exact ⟨next, Option.bind_eq_some_iff.mpr ⟨middle, hupdate, hnext⟩,
        hwaits.released_cons hkey hfirst hrest⟩

/-! ## What orderly events keep -/

/-- The queues are a partition, and a key that an ESI owns has one node. -/
structure Sound (state : PlanificadorState config) : Prop where
  partition : PartitionInvariant state
  owned : state.dispatcher.Owned (-1)

namespace Sound

theorem perm_queues (hsound : Sound state) : state.queues.Perm state.ids :=
  Multiset.coe_eq_coe.mp ((coe_queues state).trans hsound.partition.partitioned.queues)

theorem nodup_ids (hsound : Sound state) : state.ids.Nodup :=
  Multiset.coe_nodup.mp hsound.partition.partitioned.nodup

theorem nodup_queues (hsound : Sound state) : state.queues.Nodup :=
  hsound.perm_queues.nodup_iff.mpr hsound.nodup_ids

theorem perm_waits (hsound : Sound state) :
    (state.gEsisSexpectingKeys.map EsiSexpectingKey.esiFd).Perm state.gBlockedQueue := by
  have hwaiting := hsound.partition.partitioned.waiting
  simp only [PlanificadorState.dispatcher, List.map_map] at hwaiting
  exact Multiset.coe_eq_coe.mp hwaiting

theorem not_mem_ids (hsound : Sound state) : -1 ∉ state.ids := fun hmem =>
  hsound.partition.genuine.connected
    (hsound.partition.partitioned.connected _ (Multiset.mem_coe.mpr hmem))

theorem nodup_gBlockedQueue (hsound : Sound state) : state.gBlockedQueue.Nodup :=
  (List.nodup_append'.mp hsound.nodup_queues).2.1

theorem mem_gBlockedQueue_of_wait (hsound : Sound state) {sexpecting : EsiSexpectingKey}
    (hmem : sexpecting ∈ state.gEsisSexpectingKeys) :
    sexpecting.esiFd ∈ state.gBlockedQueue :=
  hsound.perm_waits.subset (List.mem_map_of_mem hmem)

theorem waits (hsound : Sound state) : Waits state where
  once := hsound.perm_waits.nodup_iff.mpr hsound.nodup_gBlockedQueue
  real _ hmem heq := hsound.partition.genuine.waiting _ (List.mem_map_of_mem hmem) heq
  known _ hmem := hsound.perm_queues.subset
    (List.mem_append_right _ (hsound.mem_gBlockedQueue_of_wait hmem))

/-- A key that an ESI owns has one node. -/
theorem filter_key (hsound : Sound state) {blocker : KeyBlocker}
    (hmem : blocker ∈ state.gLockedKeys) (hreal : blocker.esiId ≠ -1) :
    (state.gLockedKeys.filter fun other => other.key = blocker.key) = [blocker] := by
  obtain hsystem | ⟨-, honly⟩ := hsound.owned _ (List.mem_map_of_mem hmem)
  · exact absurd hsystem hreal
  · have hinjective : Function.Injective KeyBlocker.hold := by
      rintro ⟨key, esiId⟩ ⟨other, otherId⟩ hsame
      obtain ⟨rfl, rfl⟩ := Hold.mk.inj hsame
      rfl
    simp only [PlanificadorState.dispatcher, List.filter_map] at honly
    exact List.map_injective_iff.mpr hinjective honly

/-- Who shares a key with an ESI is the same node. -/
theorem mem_keysOf_iff (hsound : Sound state) (hreal : fd ≠ -1) {blocker : KeyBlocker}
    (hmem : blocker ∈ state.gLockedKeys) :
    blocker.key ∈ keysOf state.gLockedKeys fd ↔ blocker.esiId = fd := by
  constructor
  · intro hkey
    obtain ⟨own, hown, hsame⟩ := List.mem_map.mp hkey
    obtain ⟨hnode, hfd⟩ := List.mem_filter.mp hown
    have hfd : own.esiId = fd := of_decide_eq_true hfd
    have honly := hsound.filter_key hnode (hfd ▸ hreal)
    have hin : blocker ∈ state.gLockedKeys.filter fun other => other.key = own.key :=
      List.mem_filter.mpr ⟨hmem, decide_eq_true hsame.symm⟩
    rw [honly] at hin
    rwa [List.mem_singleton.mp hin]
  · exact fun hfd => List.mem_map_of_mem (List.mem_filter.mpr ⟨hmem, decide_eq_true hfd⟩)

theorem nodup_keysOf (hsound : Sound state) (hreal : fd ≠ -1) :
    (keysOf state.gLockedKeys fd).Nodup := by
  refine List.nodup_iff_count_le_one.mpr fun key => ?_
  by_cases hmem : key ∈ keysOf state.gLockedKeys fd
  · obtain ⟨own, hown, rfl⟩ := List.mem_map.mp hmem
    obtain ⟨hnode, hfd⟩ := List.mem_filter.mp hown
    have honly := hsound.filter_key hnode (of_decide_eq_true hfd ▸ hreal)
    calc (keysOf state.gLockedKeys fd).count own.key
        = (state.gLockedKeys.filter fun blocker => blocker.esiId = fd).countP
            fun blocker => blocker.key = own.key := by
          rw [keysOf, List.count, List.countP_map]
          exact List.countP_congr fun _ _ => by simp
      _ ≤ state.gLockedKeys.countP fun blocker => blocker.key = own.key :=
          List.Sublist.countP_le List.filter_sublist
      _ = 1 := by rw [List.countP_eq_length_filter, honly, List.length_singleton]
  · rw [List.count_eq_zero.mpr hmem]
    exact Nat.zero_le 1

end Sound

/-! ## Locks -/

/-- Dropping the only entry that satisfies a condition. -/
theorem eraseP_eq_filter_of_unique {α : Type} {drop : α → Bool} {list : List α} {a : α}
    (honly : list.filter drop = [a]) : list.eraseP drop = list.filter fun entry => !drop entry := by
  induction list with
  | nil => rfl
  | cons entry list ih =>
      cases hdrop : drop entry with
      | true =>
          rw [List.filter_cons_of_pos hdrop] at honly
          have hnone := List.filter_eq_nil_iff.mp (List.cons.inj honly).2
          rw [List.eraseP_cons_of_pos hdrop, List.filter_cons_of_neg (by simp [hdrop])]
          exact (List.filter_eq_self.mpr fun other hmem => by simpa using hnone other hmem).symm
      | false =>
          rw [List.filter_cons_of_neg (by simp [hdrop])] at honly
          rw [List.eraseP_cons_of_neg (by simp [hdrop]), List.filter_cons_of_pos (by simp [hdrop]),
            ih honly]

/-- Unlocking keys that have one node each. -/
theorem foldl_unlock {locked : List KeyBlocker} (hkeys : keys.Nodup)
    (honly : ∀ key ∈ keys, ∃ blocker,
      (locked.filter fun other => other.key = key) = [blocker]) :
    keys.foldl (fun locked key =>
        listRemoveByCondition locked fun blocker => blocker.key = key) locked =
      locked.filter fun blocker => blocker.key ∉ keys := by
  induction keys generalizing locked with
  | nil => exact (List.filter_eq_self.mpr fun _ _ => by simp).symm
  | cons key keys ih =>
      obtain ⟨hkey, hkeys⟩ := List.nodup_cons.mp hkeys
      obtain ⟨blocker, hfirst⟩ := honly key List.mem_cons_self
      have hdrop : (listRemoveByCondition locked fun blocker => blocker.key = key) =
          locked.filter fun blocker => !decide (blocker.key = key) :=
        eraseP_eq_filter_of_unique hfirst
      rw [List.foldl_cons, hdrop, ih hkeys, List.filter_filter]
      · refine List.filter_congr fun other _ => ?_
        simp [Bool.and_comm]
      · intro other hother
        obtain ⟨own, hown⟩ := honly other (List.mem_cons_of_mem _ hother)
        refine ⟨own, ?_⟩
        rw [← hown, List.filter_filter]
        refine List.filter_congr fun entry _ => ?_
        by_cases hsame : entry.key = other
        · have hne : entry.key ≠ key := fun heq => hkey (heq ▸ hsame ▸ hother)
          simp [hsame, hsame ▸ hne]
        · simp [hsame]

/-- The keys of an ESI are unlocked, and no others. -/
theorem Sound.foldl_keysOf (hsound : Sound state) (hreal : fd ≠ -1) :
    (keysOf state.gLockedKeys fd).foldl (fun locked key =>
        listRemoveByCondition locked fun blocker => blocker.key = key) state.gLockedKeys =
      state.gLockedKeys.filter fun blocker => blocker.esiId ≠ fd := by
  rw [foldl_unlock (hsound.nodup_keysOf hreal)]
  · refine List.filter_congr fun blocker hmem => ?_
    rw [decide_eq_decide]
    exact not_congr (hsound.mem_keysOf_iff hreal hmem)
  · intro key hkey
    obtain ⟨own, hown, rfl⟩ := List.mem_map.mp hkey
    obtain ⟨hnode, hfd⟩ := List.mem_filter.mp hown
    exact ⟨own, hsound.filter_key hnode (of_decide_eq_true hfd ▸ hreal)⟩

/-! ## Burying -/

theorem burial_eq_replicate {queue : List ℤ} (hcount : queue.count fd ≤ 1) :
    burial queue fd = List.replicate (queue.count fd) fd := by
  by_cases hmem : fd ∈ queue
  · have hone : queue.count fd = 1 := Nat.le_antisymm hcount (List.count_pos_iff.mpr hmem)
    rw [burial, if_pos (by simpa using hmem), hone]
    rfl
  · rw [burial, if_neg (by simpa using hmem), List.count_eq_zero.mpr hmem]
    rfl

/-- An ESI that is once in the queues is once among the finished ESIs. -/
theorem burials_of_once (honce : state.queues.count fd = 1) : burials state fd = [fd] := by
  have hcount : state.gNewQueue.count fd + (state.gReadyQueue.count fd +
      (state.gExecutionQueue.count fd + state.gBlockedQueue.count fd)) = 1 := by
    rw [← honce, PlanificadorState.queues]
    simp only [List.count_append, Nat.add_assoc]
  rw [burials, burial_eq_replicate, burial_eq_replicate, burial_eq_replicate, burial_eq_replicate,
    List.replicate_append_replicate, List.replicate_append_replicate,
    List.replicate_append_replicate, hcount]
  · rfl
  all_goals omega

/-! ## Dying -/

theorem ids_forgottenState (hnodup : state.ids.Nodup) :
    (forgottenState state fd).ids = state.ids.filter fun other => other ≠ fd := by
  show (state.gEsiBursts.eraseP fun information => information.esiId = fd).map
    EsiInformation.esiId = _
  rw [PlanificadorState.ids] at hnodup
  rw [eraseP_eq_filter fd hnodup, PlanificadorState.ids, List.filter_map]
  rfl

/-- What the death of an ESI does, whether or not it is its own heir. -/
structure Died (state next : PlanificadorState config) (fd : ℤ) (heirs : List ℤ) : Prop where
  gNewQueue : next.gNewQueue = state.gNewQueue.filter fun other => other ≠ fd
  gReadyQueue : next.gReadyQueue = (state.gReadyQueue.filter fun other => other ≠ fd) ++ heirs
  gExecutionQueue : next.gExecutionQueue = state.gExecutionQueue.filter fun other => other ≠ fd
  gBlockedQueue : next.gBlockedQueue =
    (state.gBlockedQueue.filter fun other => other ≠ fd).filter fun other => other ∉ heirs
  gFinishedQueue : next.gFinishedQueue = state.gFinishedQueue ++ [fd]
  gLockedKeys : next.gLockedKeys = state.gLockedKeys.filter fun blocker => blocker.esiId ≠ fd
  gEsisSexpectingKeys : next.gEsisSexpectingKeys =
    (state.gEsisSexpectingKeys.filter fun sexpecting => sexpecting.esiFd ∉ heirs).filter
      fun sexpecting => sexpecting.esiFd ≠ fd
  ids : next.ids = state.ids.filter fun other => other ≠ fd

/-- The program survives the death of a registered ESI. -/
theorem Sound.exists_sockMyPort (hsound : Sound state) (hmem : fd ∈ state.ids) :
    ∃ next, sockMyPort state fd = some next ∧
      Died state next fd (wokenBy state fd) := by
  have hreal : fd ≠ -1 := fun heq => hsound.not_mem_ids (heq ▸ hmem)
  have honce : state.queues.count fd = 1 :=
    List.count_eq_one_of_mem hsound.nodup_queues (hsound.perm_queues.symm.subset hmem)
  have hblocked := hsound.nodup_gBlockedQueue
  obtain ⟨hbefore, -, -⟩ := List.nodup_append'.mp hsound.nodup_queues
  obtain ⟨hbefore, hexecution, -⟩ := List.nodup_append'.mp hbefore
  obtain ⟨hnew, hready, -⟩ := List.nodup_append'.mp hbefore
  have hburied : (buriedState state fd (state.gFinishedQueue ++ [fd])).gBlockedQueue =
      state.gBlockedQueue.filter fun other => other ≠ fd := takeEsiAwayFromQueue_eq_filter hblocked
  have hwaits : Waits (buriedState state fd (state.gFinishedQueue ++ [fd])) :=
    ⟨hsound.waits.once, hsound.waits.real, hsound.waits.known⟩
  obtain ⟨released, hrelease, hreleased⟩ := hwaits.exists_releaseKeys
    (hburied ▸ hblocked.filter _) (hsound.nodup_keysOf hreal)
  refine ⟨forgottenState released fd, ?_, ?_⟩
  · rw [sockMyPort_eq hmem, burials_of_once honce, hrelease]
    rfl
  · constructor
    case gNewQueue => exact hreleased.waking.gNewQueue.trans (takeEsiAwayFromQueue_eq_filter hnew)
    case gReadyQueue =>
      refine hreleased.gReadyQueue.trans (congrArg (· ++ _) ?_)
      exact takeEsiAwayFromQueue_eq_filter hready
    case gExecutionQueue =>
      exact hreleased.waking.gExecutionQueue.trans (takeEsiAwayFromQueue_eq_filter hexecution)
    case gBlockedQueue => exact hreleased.gBlockedQueue.trans (congrArg (List.filter _) hburied)
    case gFinishedQueue => exact hreleased.gFinishedQueue
    case gLockedKeys =>
      have hlocked : released.gLockedKeys =
          state.gLockedKeys.filter fun blocker => blocker.esiId ≠ fd :=
        hreleased.gLockedKeys.trans (hsound.foldl_keysOf hreal)
      show (listRemoveByCondition released.gLockedKeys fun blocker => blocker.esiId = fd) = _
      rw [hlocked]
      exact List.eraseP_of_forall_not fun blocker hmem => by
        simpa using (List.mem_filter.mp hmem).2
    case gEsisSexpectingKeys =>
      refine (eraseP_eq_filter fd (hwaits.of_released hreleased).once).trans ?_
      exact congrArg _ hreleased.gEsisSexpectingKeys
    case ids =>
      have hids : released.ids = state.ids := hreleased.waking.ids
      rw [ids_forgottenState (hids ▸ hsound.nodup_ids), hids]

/-- A stronger condition finds the same entry when that satisfies it. -/
theorem find?_and_of_find? {α : Type} {select also : α → Bool} {list : List α}
    (hfound : ∀ a, list.find? select = some a → also a = true) :
    (list.find? fun a => select a && also a) = list.find? select := by
  induction list with
  | nil => rfl
  | cons a list ih =>
      cases hselect : select a with
      | true =>
          rw [List.find?_cons_of_pos hselect]
          have halso := hfound a (List.find?_cons_of_pos hselect)
          exact List.find?_cons_of_pos (by simp [hselect, halso])
      | false =>
          rw [List.find?_cons_of_neg (by simp [hselect])] at hfound ⊢
          rw [List.find?_cons_of_neg (by simp [hselect]), ih hfound]

/-- Who is not the first that waits may be left out. -/
theorem firstWaiting_cons {gone : List ℤ} (hne : firstWaiting state gone key ≠ some fd) :
    firstWaiting state (fd :: gone) key = firstWaiting state gone key := by
  have hsame : (fun sexpecting : EsiSexpectingKey =>
      decide (sexpecting.key = key ∧ sexpecting.esiFd ∉ fd :: gone)) =
      fun sexpecting => decide (sexpecting.key = key ∧ sexpecting.esiFd ∉ gone) &&
        decide (sexpecting.esiFd ≠ fd) := by
    funext sexpecting
    rw [← Bool.decide_and, decide_eq_decide, List.mem_cons, not_or, and_assoc]
    exact and_congr_right fun _ => and_comm
  rw [firstWaiting, firstWaiting, hsame]
  refine congrArg _ (find?_and_of_find? fun sexpecting hfind => decide_eq_true fun hfd => hne ?_)
  rw [firstWaiting, hfind, ← hfd]
  rfl

/-- The heirs of an ESI that is not its own heir. -/
theorem heirsOf_eq (hnot : ¬ OwnHeir state [] fd) :
    wokenBy state fd = heirsOf state fd :=
  List.filterMap_congr fun key hmem =>
    (firstWaiting_cons fun hfirst => hnot ⟨key, hmem, hfirst⟩).symm

/-- An ESI that dies and is not its own heir is removed completely. -/
theorem Died.removed (hsound : Sound state) (hmem : fd ∈ state.ids)
    (hdied : Died state next fd (heirsOf state fd)) (hnot : ¬ OwnHeir state [] fd) :
    Removed state next fd := by
  have hreal : fd ≠ -1 := fun heq => hsound.not_mem_ids (heq ▸ hmem)
  have hself : fd ∉ heirsOf state fd := by
    rw [← heirsOf_eq hnot]
    intro hheir
    obtain ⟨key, hkey, hfirst⟩ := List.mem_filterMap.mp hheir
    exact hnot ⟨key, hkey, hfirst⟩
  have hgone : ∀ list : List ℤ, fd ∉ list.filter fun other => other ≠ fd := fun list hfd => by
    simpa using (List.mem_filter.mp hfd).2
  constructor
  case queues =>
    simp only [PlanificadorState.queues, List.mem_append, hdied.gNewQueue, hdied.gReadyQueue,
      hdied.gExecutionQueue, hdied.gBlockedQueue, not_or]
    exact ⟨⟨⟨hgone _, hgone _, hself⟩, hgone _⟩, fun hfd => hgone _ (List.mem_of_mem_filter hfd)⟩
  case ids =>
    rw [hdied.ids]
    exact hgone _
  case owns =>
    intro blocker hblocker
    rw [hdied.gLockedKeys] at hblocker
    simpa using (List.mem_filter.mp hblocker).2
  case waits =>
    intro sexpecting hwait
    rw [hdied.gEsisSexpectingKeys] at hwait
    simpa using (List.mem_filter.mp hwait).2
  case unlocked =>
    intro key hkey hlocked
    rw [PlanificadorState.keys, hdied.gLockedKeys] at hlocked
    obtain ⟨blocker, hblocker, rfl⟩ := List.mem_map.mp hlocked
    obtain ⟨hnode, hother⟩ := List.mem_filter.mp hblocker
    exact of_decide_eq_true hother ((hsound.mem_keysOf_iff hreal hnode).mp hkey)
  case heirs =>
    intro heir hheir
    obtain ⟨key, -, hfirst⟩ := List.mem_filterMap.mp hheir
    obtain ⟨sexpecting, hwait, -, rfl, -⟩ := exists_wait_of_firstWaiting hfirst
    exact hsound.mem_gBlockedQueue_of_wait hwait
  case gReadyQueue => exact hdied.gReadyQueue
  case gBlockedQueue =>
    rw [hdied.gBlockedQueue, List.filter_filter]
    exact List.filter_congr fun _ _ => by simp [Bool.and_comm]
  case gEsisSexpectingKeys =>
    rw [hdied.gEsisSexpectingKeys, List.filter_filter]
    exact List.filter_congr fun _ _ => by simp
  case gLockedKeys => exact hdied.gLockedKeys
  case gNewQueue => exact hdied.gNewQueue
  case gExecutionQueue => exact hdied.gExecutionQueue

/-- **An ESI is removed completely exactly when it is not its own heir.** -/
theorem Sound.removed_iff (hsound : Sound state) (hqueued : fd ∈ state.queues) :
    (∃ next, sockMyPort state fd = some next ∧ Removed state next fd) ↔ ¬ OwnHeir state [] fd := by
  have hmem := hsound.perm_queues.subset hqueued
  obtain ⟨next, hsock, hdied⟩ := hsound.exists_sockMyPort hmem
  constructor
  · rintro ⟨other, hother, hremoved⟩ ⟨key, hkey, hfirst⟩
    obtain rfl := Option.some.inj (hsock.symm.trans hother)
    have hready : fd ∈ next.gReadyQueue := by
      rw [hdied.gReadyQueue]
      exact List.mem_append_right _ (List.mem_filterMap.mpr ⟨key, hkey, hfirst⟩)
    refine hremoved.queues ?_
    simp [PlanificadorState.queues, hready]
  · intro hnot
    rw [heirsOf_eq hnot] at hdied
    exact ⟨next, hsock, hdied.removed hsound hmem hnot⟩

/-! ## The result -/

instance (state : PlanificadorState config) : (event : Event) → Decidable (BlocksFree state event)
  | .newClient _ _ => .isTrue trivial
  | .coordinator (.isThisKeyBlocked _) => .isTrue trivial
  | .coordinator .isKeyBlockedByExecutingEsi => .isTrue trivial
  | .coordinator .blockKey => inferInstanceAs (Decidable (∀ key ∈ _, ∀ executing ∈ _, _ ∧ _))
  | .coordinator (.unlockKey _) => .isTrue trivial
  | .coordinator .keyStatus => .isTrue trivial
  | .executingEsi _ _ _ _ => .isTrue trivial
  | .endOfTurn _ => .isTrue trivial
  | .console _ => .isTrue trivial

/-- The event is orderly, and blocks a free key when it blocks one. -/
def soundEvent (state : PlanificadorState config) (event : Event) : Bool :=
  orderlyEvent state event && decide (BlocksFree state event)

theorem sound_init (config : Config) : Sound (PlanificadorState.init config) :=
  ⟨partitionInvariant_init config, owned_init config⟩

theorem Sound.mainStep {event : Event} (hsound : Sound state)
    (hevent : soundEvent state event = true)
    (hstep : Planificador.mainStep config state event = some next) : Sound next := by
  obtain ⟨horderly, hblocks⟩ := (Bool.and_eq_true _ _).mp hevent
  exact ⟨hsound.partition.mainStep horderly hstep,
    owned_mainStep hsound.partition.genuine (of_decide_eq_true hblocks) hstep hsound.owned⟩

theorem sound_of_runs {finish : PlanificadorState config} {events : List Event}
    (hrun : (mainStep config).Runs (fun state event => soundEvent state event = true)
      (PlanificadorState.init config) events finish) : Sound finish :=
  hrun.invariant _ (fun hsound hevent hstep => hsound.mainStep hevent hstep) (sound_init config)

/-- **Killing removes completely.** In every state that is reached by orderly events that
block free keys, the death of an ESI removes it completely exactly when the ESI is not the
first that waits for one of its own keys. -/
theorem removed_iff_of_runs {finish : PlanificadorState config} {events : List Event}
    (hrun : (mainStep config).Runs (fun state event => soundEvent state event = true)
      (PlanificadorState.init config) events finish) (hqueued : fd ∈ finish.queues) :
    (∃ next, sockMyPort finish fd = some next ∧ Removed finish next fd) ↔
      ¬ OwnHeir finish [] fd :=
  (sound_of_runs hrun).removed_iff hqueued

/-- An ESI takes a key, and another one is blocked on it by the console. -/
def blockedByOwner : List Event :=
  [.newClient 10 true, .newClient 11 true, .endOfTurn [],
    .coordinator (.isThisKeyBlocked keyK), .coordinator .blockKey,
    .executingEsi (.code .executionSuccess) (.code .didntFinishScript) [] [],
    .console (.bloquear keyK 2), .newClient 12 true,
    .executingEsi (.code .executionSuccess) (.code .didntFinishScript) [] []]

/-- The owner is removed completely, and the other ESI becomes ready. -/
theorem removed_blockedByOwner :
    ∃ finish next : PlanificadorState (smallConfig .fifo), finish.gBlockedQueue = [11] ∧
      sockMyPort finish 10 = some next ∧ Removed finish next 10 ∧
      next.gReadyQueue = [12, 11] := by
  obtain ⟨finish, hrun, hcheck⟩ := PartialStep.exists_run_of_execute
    ((mainStep (smallConfig .fifo)).guarded soundEvent) (PlanificadorState.init _) blockedByOwner
    (fun state => decide (state.gBlockedQueue = [11] ∧ 10 ∈ state.queues ∧
      ¬ OwnHeir state [] 10 ∧ state.gReadyQueue = [12] ∧ heirsOf state 10 = [11]))
    (by decide +kernel)
  obtain ⟨hblocked, hqueued, hnot, hready, hheirs⟩ := of_decide_eq_true hcheck
  obtain ⟨next, hsock, hremoved⟩ :=
    (removed_iff_of_runs (PartialStep.runs_of_guarded hrun) hqueued).mpr hnot
  refine ⟨finish, next, hblocked, hsock, hremoved, ?_⟩
  rw [hremoved.gReadyQueue, hready, hheirs]
  decide

/-- The console gives an ESI a key, and blocks it on the same key. -/
def blockedOnOwnKey : List Event :=
  [.newClient 10 true, .console (.bloquear keyK 1), .endOfTurn [], .console (.bloquear keyK 1),
    .newClient 11 true,
    .executingEsi (.code .executionSuccess) (.code .didntFinishScript) [] []]

/-- Such an ESI is ready after its death. -/
theorem not_removed_blockedOnOwnKey :
    ¬ ∀ (config : Config) (finish : PlanificadorState config) (events : List Event) (fd : ℤ),
      (mainStep config).FreeRuns (PlanificadorState.init config) events finish →
        fd ∈ finish.queues →
          ∃ next, sockMyPort finish fd = some next ∧ Removed finish next fd := by
  intro hclaim
  obtain ⟨finish, hrun, hcheck⟩ := PartialStep.exists_run_of_execute
    (mainStep (smallConfig .fifo)) (PlanificadorState.init _) blockedOnOwnKey
    (fun state => decide ((10 : ℤ) ∈ state.gBlockedQueue) &&
      (sockMyPort state 10).any fun next => next.queues.contains 10) (by decide +kernel)
  obtain ⟨hblocked, hready⟩ := (Bool.and_eq_true _ _).mp hcheck
  obtain ⟨next, hsock, hremoved⟩ := hclaim _ finish _ 10 hrun
    (List.mem_append_right _ (of_decide_eq_true hblocked))
  rw [hsock, Option.any_some] at hready
  exact hremoved.queues (by simpa using hready)

end SockMyPort.Planificador
