/-
# What a turn does to the store

A turn of a thread means some operations on the store of its instance. Its calls of the
dumper leave on disk what the operations say, all of them or only the first ones.
-/

import SockMyPort.Instancia.WriteBack

namespace SockMyPort.Instancia

open SockMyPort.Commons Library

variable {config : Config}

/-! ## Stores -/

section Stores

variable {state : InstanceState} {store : InstanceStore}

/-- A store copies the bytes of a key that is in memory. -/
theorem storeUses_of_remembers (hremembers : Remembers config state store) (key : CString) :
    storeUses config state key =
      ((store.memory key).map fun value => DumperUse.store key (bytesOf value)).toList := by
  have hcontents := hremembers key
  rw [contents] at hcontents
  cases hget : entryTableGetEntry state.entryTable key with
  | none =>
      rw [hget, Option.map_none] at hcontents
      rw [storeUses, hget, Option.map_eq_none_iff.mp hcontents.symm]
      rfl
  | some entry =>
      rw [hget, Option.map_some] at hcontents
      obtain ⟨value, hvalue, hbytes⟩ := Option.map_eq_some_iff.mp hcontents.symm
      simp only [storeUses, hget, hvalue, hbytes, Option.map_some, Option.toList_some]

/-- It finds the bytes in memory. -/
theorem exists_of_mem_storeUses_of_remembers (hremembers : Remembers config state store)
    {key : CString} {use : DumperUse} (hmem : use ∈ storeUses config state key) :
    ∃ key data, use = .store key data ∧ (store.memory key).map bytesOf = some data := by
  rw [storeUses_of_remembers hremembers] at hmem
  cases hvalue : store.memory key with
  | none =>
      rw [hvalue] at hmem
      cases hmem
  | some value =>
      rw [hvalue] at hmem
      exact ⟨key, bytesOf value, List.mem_singleton.mp hmem, by rw [hvalue, Option.map_some]⟩

/-- Storing a key. -/
theorem foldl_persistUse_storeUses (hremembers : Remembers config state store)
    (files : CString → Option (List UInt8)) (key : CString) :
    (storeUses config state key).foldl persistUse files =
      Function.update files key (((store.memory key).map bytesOf).or (files key)) := by
  rw [storeUses_of_remembers hremembers]
  cases store.memory key with
  | none => exact (Function.update_eq_self key files).symm
  | some value => rfl

/-- Storing some keys. -/
theorem foldl_persistUse_flatMap_storeUses (hremembers : Remembers config state store)
    (files : CString → Option (List UInt8)) (keys : List CString) :
    (keys.flatMap (storeUses config state)).foldl persistUse files = fun key =>
      if key ∈ keys then ((store.memory key).map bytesOf).or (files key) else files key := by
  induction keys generalizing files with
  | nil => simp
  | cons key keys ih =>
      rw [List.flatMap_cons, List.foldl_append, ih, foldl_persistUse_storeUses hremembers]
      funext other
      by_cases hother : other = key
      · subst hother
        cases store.memory other <;> simp
      · simp [hother]

/-- **A turn of the dump thread** copies the memory over the disk. -/
theorem foldl_persistUse_dumpUses (hremembers : Remembers config state store)
    (files : CString → Option (List UInt8)) :
    (dumpUses config state).foldl persistUse files =
      fun key => ((store.memory key).map bytesOf).or (files key) := by
  rw [dumpUses, foldl_persistUse_flatMap_storeUses hremembers]
  funext key
  by_cases hmem : key ∈ entryTableGetKeyList state.entryTable
  · rw [if_pos hmem]
  · have hcontents := hremembers key
    rw [contents, entryTableGetEntry_eq_none_iff.mpr hmem, Option.map_none] at hcontents
    rw [if_neg hmem, ← hcontents, Option.none_or]

end Stores

/-! ## What one turn does -/

variable (config) in
/-- What a turn relies on: nothing is in memory before the recovery, and the keys that a
SET has replaced are gone until its second call. -/
def FitsPhase (state : InstanceState) : Phase → Prop
  | .starting => (∀ key, contents config state key = none) ∧
      AtomicAmong [] state.entryTableStatusGlobal
  | .waiting => True
  | .compacting keyValue replacedKeys => keyValue.value ≠ [] ∧
      (∀ key ∈ replacedKeys, key.length ≤ 40) ∧
      ∀ key ∈ replacedKeys, contents config state key = none

variable (config) in
/-- A turn means some operations, in memory and on disk. -/
structure TurnMeans {state : InstanceState} (turn : Turn state)
    (store : InstanceStore) (operations : List Operation) : Prop where
  inv : InstanceInvariant config turn.next
  memory : Remembers config turn.next (store.applyAll operations)
  disk : (store.applyAll operations).disk = turn.uses.foldl persistUse store.disk
  copying : Copying store turn.uses
  fits : FitsPhase config turn.next turn.phase

section Turns

variable {state : InstanceState} {store : InstanceStore} {phase : Phase}

/-- The phase depends on the contents only, once the instance has been started. -/
theorem FitsPhase.congr {next : InstanceState} (hfits : FitsPhase config state phase)
    (hcontents : contents config next = contents config state)
    (hstatuses : next.entryTableStatusGlobal = state.entryTableStatusGlobal) :
    FitsPhase config next phase := by
  cases phase with
  | starting => exact ⟨fun key => by rw [hcontents]; exact hfits.1 key, hstatuses ▸ hfits.2⟩
  | waiting => trivial
  | compacting keyValue replacedKeys =>
      exact ⟨hfits.1, hfits.2.1, fun key hmem => by rw [hcontents]; exact hfits.2.2 key hmem⟩

/-- A call of `instance_set` only removes keys from the dumper. -/
theorem exists_of_mem_setUses {keyValue : KeyValue} {replacedKeys : List CString}
    {use : DumperUse} (hmem : use ∈ setUses config state keyValue replacedKeys) :
    ∃ key, use = .remove key := by
  obtain ⟨huses, -⟩ | huses := setUses_cases config state keyValue replacedKeys
  · rw [huses] at hmem
    cases hmem
  · rw [huses] at hmem
    obtain ⟨key, -, rfl⟩ := List.mem_map.mp hmem
    exact ⟨key, rfl⟩

/-- A call of `instance_set` with a new value. -/
theorem exists_setTurn (hinv : InstanceInvariant config state)
    (hmemory : Remembers config state store) {keyValue : KeyValue} {replacedKeys : List CString}
    (hvalue : keyValue.value ≠ []) (hshort : ∀ key ∈ replacedKeys, key.length ≤ 40)
    (hgone : ∀ key ∈ replacedKeys, contents config state key = none) (turn : Turn state)
    (hnext : ∃ alive, turn.next =
      { (instanceSet config state keyValue replacedKeys).state with instanceIsAlive := alive })
    (huses : turn.uses = setUses config state keyValue replacedKeys)
    (hfits : FitsPhase config turn.next turn.phase) :
    TurnMeans config turn store
      (setOperations config state keyValue replacedKeys (.put keyValue.key keyValue.value)) := by
  obtain ⟨alive, hnext⟩ := hnext
  obtain ⟨hset, -, -⟩ := hinv.instanceSet keyValue replacedKeys hvalue hshort hgone
  obtain ⟨hremembers, hdisk⟩ := hmemory.set keyValue _ hinv hvalue hshort hgone rfl
  refine ⟨?_, ?_, huses ▸ hdisk,
    copying_of_removes fun use hmem => exists_of_mem_setUses (huses ▸ hmem), hfits⟩
  · rw [hnext]
    exact hset.congr rfl rfl rfl rfl
  · rw [hnext]
    exact fun key => (congrFun (contents_congr rfl rfl) key).trans (hremembers key)

/-- A turn that changes neither the contents nor the files. -/
theorem turnMeans_nil (hmemory : Remembers config state store) {turn : Turn state}
    (hnext : InstanceInvariant config turn.next)
    (hcontents : contents config turn.next = contents config state) (huses : turn.uses = [])
    (hphase : turn.phase = .waiting) : TurnMeans config turn store [] where
  inv := hnext
  memory key := (congrFun hcontents key).trans (hmemory key)
  disk := by rw [huses]; rfl
  copying := by rw [huses]; trivial
  fits := by rw [hphase]; trivial

/-- The invariant and the contents do not depend on the dumper, or on the flag. -/
theorem contents_of_frame (hinv : InstanceInvariant config state) (next : InstanceState)
    (hframe : ∃ dumper alive,
      next = { state with dumper := dumper, instanceIsAlive := alive }) :
    InstanceInvariant config next ∧ contents config next = contents config state ∧
      next.entryTableStatusGlobal = state.entryTableStatusGlobal := by
  obtain ⟨dumper, alive, rfl⟩ := hframe
  exact ⟨hinv.congr rfl rfl rfl rfl, contents_congr rfl rfl, rfl⟩

/-- A turn of the dump thread, in any phase. -/
theorem turnMeans_dumpTurn (hinv : InstanceInvariant config state)
    (hmemory : Remembers config state store) (hfits : FitsPhase config state phase) :
    TurnMeans config (dumpTurn config state phase) store [.dump] := by
  obtain ⟨dumper, hframe⟩ := instanceThreadDump_frame config state
  obtain ⟨hnext, hsame, hstatuses⟩ :=
    contents_of_frame hinv (dumpTurn config state phase).next ⟨_, _, hframe⟩
  refine ⟨hnext, fun key => (congrFun hsame key).trans (hmemory key),
    (foldl_persistUse_dumpUses hmemory store.disk).symm, copying_of_stores fun use hmem => ?_,
    hfits.congr hsame hstatuses⟩
  obtain ⟨key, -, hmem⟩ := List.mem_flatMap.mp hmem
  exact exists_of_mem_storeUses_of_remembers hmemory hmem

/-- A STORE. -/
theorem turnMeans_store (hinv : InstanceInvariant config state)
    (hmemory : Remembers config state store) (key : CString) (sendOk : Bool) :
    TurnMeans config (requestTurn config state (.store key sendOk)) store [.store key] := by
  obtain ⟨dumper, hframe⟩ := instanceStore_frame config state key
  obtain ⟨hnext, hsame, -⟩ :=
    contents_of_frame hinv (requestTurn config state (.store key sendOk)).next
      ⟨dumper, sendOk, by simp only [requestTurn, hframe]⟩
  exact ⟨hnext, fun other => (congrFun hsame other).trans (hmemory other),
    (foldl_persistUse_storeUses hmemory store.disk key).symm,
    copying_of_stores fun use hmem => exists_of_mem_storeUses_of_remembers hmemory hmem, trivial⟩

/-- A SET, up to its answer. -/
theorem turnMeans_set (hinv : InstanceInvariant config state)
    (hmemory : Remembers config state store) (request : SetRequest) :
    TurnMeans config (requestTurn config state (.set request)) store
      (requestOperations config state (.set request)) := by
  cases hknown : request.isNew ||
      entryTableHasKey state.entryTable request.keyValue.key request.isNew with
  | false =>
      have hoperations : requestOperations config state (.set request) = [] := by
        simp only [requestOperations, hknown, Bool.not_false, if_true]
      have hturn : beginSet config state request = (state, .waiting) := by
        simp only [beginSet, hknown, Bool.not_false, if_true]
      have hnext : (requestTurn config state (.set request)).next = state :=
        congrArg Prod.fst hturn
      rw [hoperations]
      refine turnMeans_nil hmemory (hnext.symm ▸ hinv) (by rw [hnext]) ?_
        (congrArg Prod.snd hturn)
      simp only [requestTurn, beginSetUses, hknown, Bool.not_false, if_true]
  | true =>
      have hoperations : requestOperations config state (.set request) =
          setOperations config state request.keyValue []
            (.put request.keyValue.key request.keyValue.value) := by
        simp only [requestOperations, hknown, Bool.not_true, Bool.false_eq_true, if_false]
      obtain ⟨-, hcontents, hshort⟩ := hinv.instanceSet request.keyValue [] request.value_ne
        (by simp) (by simp)
      rw [hoperations]
      refine exists_setTurn hinv hmemory request.value_ne (by simp) (by simp) _ ?_ ?_ ?_
      · simp only [requestTurn, beginSet, hknown, Bool.not_true, Bool.false_eq_true, if_false]
        split
        · exact ⟨_, rfl⟩
        · split
          · exact ⟨_, rfl⟩
          · exact ⟨_, rfl⟩
          · exact ⟨_, rfl⟩
      · simp only [requestTurn, beginSetUses, hknown, Bool.not_true, Bool.false_eq_true, if_false]
      · simp only [requestTurn, beginSet, hknown, Bool.not_true, Bool.false_eq_true, if_false]
        split
        · trivial
        · split
          · trivial
          · rename_i hstatus
            refine ⟨request.value_ne, hshort, fun key hmem => ?_⟩
            rw [hcontents, hstatus]
            simp only [SetCall.effect, Function.update_apply, Contents.forget, hmem, if_true,
              ite_self]
          · trivial

/-- The rest of a SET that compacts. -/
theorem turnMeans_compactAndSet (hinv : InstanceInvariant config state)
    (hmemory : Remembers config state store) {keyValue : KeyValue} {replacedKeys : List CString}
    (hfits : FitsPhase config state (.compacting keyValue replacedKeys)) :
    TurnMeans config (compactAndSetTurn config state keyValue replacedKeys) store
      (setOperations config (compactationCompact config state) keyValue replacedKeys
        (.put keyValue.key keyValue.value)) := by
  obtain ⟨hcompact, hsame, -⟩ := hinv.compactationCompact
  obtain ⟨hvalue, hshort, hgone⟩ := hfits
  have hremembers : Remembers config (compactationCompact config state) store :=
    fun key => (congrFun hsame key).trans (hmemory key)
  have hstill : ∀ key ∈ replacedKeys,
      contents config (compactationCompact config state) key = none :=
    fun key hmem => (congrFun hsame key).trans (hgone key hmem)
  obtain ⟨hset, -, -⟩ := hcompact.instanceSet keyValue replacedKeys hvalue hshort hstill
  obtain ⟨hafter, hdisk⟩ := hremembers.set keyValue _ hcompact hvalue hshort hstill rfl
  exact ⟨hset, hafter, hdisk, copying_of_removes fun use hmem => exists_of_mem_setUses hmem,
    trivial⟩

/-- **A request.** -/
theorem turnMeans_request (hinv : InstanceInvariant config state)
    (hmemory : Remembers config state store) (request : Request) :
    TurnMeans config (requestTurn config state request) store
      (requestOperations config state request) := by
  cases request with
  | set request => exact turnMeans_set hinv hmemory request
  | store key sendOk => exact turnMeans_store hinv hmemory key sendOk
  | compact =>
      obtain ⟨hcompact, hsame, -⟩ := hinv.compactationCompact
      exact turnMeans_nil hmemory hcompact hsame rfl rfl
  | requestValue key sendOk =>
      exact turnMeans_nil hmemory (hinv.congr rfl rfl rfl rfl) (contents_congr rfl rfl) rfl rfl
  | isAlive => exact turnMeans_nil hmemory hinv rfl rfl rfl
  | kill =>
      exact turnMeans_nil hmemory (hinv.congr rfl rfl rfl rfl) (contents_congr rfl rfl) rfl rfl
  | dump => exact turnMeans_dumpTurn hinv hmemory trivial

/-- The calls of the loop of the recovery only remove keys from the dumper. -/
theorem exists_of_mem_recoverSetUses {recovered : SetResult} {keyValues : List KeyValue}
    {use : DumperUse} (hmem : use ∈ recoverSetUses config recovered keyValues) :
    ∃ key, use = .remove key := by
  induction keyValues generalizing recovered with
  | nil => cases hmem
  | cons keyValue keyValues ih =>
      obtain hmem | hmem := List.mem_append.mp hmem
      · exact exists_of_mem_setUses hmem
      · exact ih hmem

/-- What a recovery sets, before the first value. -/
abbrev beforeRecovery (state : InstanceState) (keys : List CString) : SetResult where
  state := { state with dumper := (dumperRecover state.dumper keys).1 }
  replacedKeys := []
  status := .ok

/-- **The loop of the recovery**, of distinct keys with values that are on disk. -/
theorem recoverTurn_remembers (hinv : InstanceInvariant config state)
    (hmemory : Remembers config state store) (hfits : FitsPhase config state .starting)
    {keys : List CString} (hkeys : ((dumperRecover state.dumper keys).2.map KeyValue.key).Nodup)
    (hvalues : ∀ keyValue ∈ (dumperRecover state.dumper keys).2, keyValue.value ≠ [] ∧
      (store.disk keyValue.key).map messengerBytesToString = some keyValue.value) :
    let operations := recoverOperations config (beforeRecovery state keys)
      (dumperRecover state.dumper keys).2
    InstanceInvariant config (recoverTurn config state keys).next ∧
      Remembers config (recoverTurn config state keys).next (store.applyAll operations) ∧
      (store.applyAll operations).disk = (recoverSetUses config (beforeRecovery state keys)
        (dumperRecover state.dumper keys).2).foldl persistUse store.disk := by
  intro operations
  have hstart : Recovering config [] (beforeRecovery state keys) store := by
    refine ⟨hinv.congr rfl rfl rfl rfl, hmemory, ?_, ?_, ?_, fun key hsome => ?_, hfits.2⟩
    · exact fun key hmem => absurd hmem List.not_mem_nil
    · exact fun key hmem => absurd hmem List.not_mem_nil
    · exact fun key hmem => absurd hmem List.not_mem_nil
    · exact absurd (hfits.1 key) hsome
  obtain ⟨hloop, hdisk⟩ := hstart.loop (dumperRecover state.dumper keys).2
    (by rw [List.nil_append]; exact hkeys) hvalues
  exact ⟨hloop.inv, hloop.memory, hdisk⟩

/-- Opening files that exist changes none. -/
theorem foldl_persistUse_create {files : CString → Option (List UInt8)} {keys : List CString}
    (hfiles : ∀ key ∈ keys, (files key).isSome = true) :
    (keys.map DumperUse.create).foldl persistUse files = files := by
  induction keys with
  | nil => rfl
  | cons key keys ih =>
      obtain ⟨content, hcontent⟩ := Option.isSome_iff_exists.mp (hfiles key List.mem_cons_self)
      have hsame : persistUse files (.create key) = files := by
        rw [persistUse, hcontent, Option.getD_some, ← hcontent, Function.update_eq_self]
      rw [List.map_cons, List.foldl_cons, hsame]
      exact ih fun other hmem => hfiles other (List.mem_cons_of_mem _ hmem)

/-- The keys are distinct, and those that are found among the files have a file of their
own, with a value that is not empty. -/
def recoversOwn (dumper : Dumper) (keys : List CString) : Bool :=
  decide keys.Nodup && keys.all fun key => !isListed dumper key ||
    (fileOf dumper key).any fun content => messengerBytesToString content ≠ []

theorem recoversOwn_iff {dumper : Dumper} {files : CString → Option (List UInt8)}
    (hholds : HoldsFiles dumper files) {keys : List CString} :
    recoversOwn dumper keys = true ↔ keys.Nodup ∧ ∀ key ∈ keys, isListed dumper key = true →
      ∃ content, files key = some content ∧ messengerBytesToString content ≠ [] := by
  simp only [recoversOwn, Bool.and_eq_true, decide_eq_true_eq, List.all_eq_true, Bool.or_eq_true,
    Bool.not_eq_true', hholds.value, Option.any_eq_true]
  refine and_congr_right fun _ => forall₂_congr fun key _ => ?_
  cases isListed dumper key <;> simp

/-- **The recovery.** -/
theorem turnMeans_recoverTurn (hinv : InstanceInvariant config state)
    (hmemory : Remembers config state store) (hholds : HoldsFiles state.dumper store.disk)
    (hkeyed : store.Keyed fun key => key.length ≤ 40) (hfits : FitsPhase config state .starting)
    {keys : List CString} (hown : recoversOwn state.dumper keys = true) :
    TurnMeans config (recoverTurn config state keys) store
      (recoverOperations config (beforeRecovery state keys)
        (dumperRecover state.dumper keys).2) := by
  obtain ⟨hnodup, hfiles⟩ := (recoversOwn_iff hholds).mp hown
  have hpersisted : ∀ key ∈ keys.filter (isListed state.dumper),
      ∃ content, store.disk key = some content ∧ messengerBytesToString content ≠ [] ∧
        key.length ≤ 40 := by
    intro key hmem
    obtain ⟨hkey, hlisted⟩ := List.mem_filter.mp hmem
    obtain ⟨content, hcontent, hvalue⟩ := hfiles key hkey hlisted
    exact ⟨content, hcontent, hvalue, hkeyed key (.inr (by rw [hcontent]; rfl))⟩
  have hkeys : (dumperRecover state.dumper keys).2.map KeyValue.key =
      keys.filter (isListed state.dumper) := by
    rw [dumperRecover_eq hholds, List.map_map]
    refine (List.map_congr_left fun key hmem => ?_).trans (List.map_id _)
    obtain ⟨content, -, -, hshort⟩ := hpersisted key hmem
    exact keyValueCreate_key hshort
  have hvalues : ∀ keyValue ∈ (dumperRecover state.dumper keys).2, keyValue.value ≠ [] ∧
      (store.disk keyValue.key).map messengerBytesToString = some keyValue.value := by
    intro keyValue hmem
    rw [dumperRecover_eq hholds] at hmem
    obtain ⟨key, hkey, rfl⟩ := List.mem_map.mp hmem
    obtain ⟨content, hcontent, hvalue, hshort⟩ := hpersisted key hkey
    rw [keyValueCreate_key hshort, keyValueCreate_value, readFile, hcontent]
    exact ⟨hvalue, rfl⟩
  have hsome : ∀ key ∈ keys.filter (isListed state.dumper), (store.disk key).isSome = true := by
    intro key hmem
    obtain ⟨content, hcontent, -⟩ := hpersisted key hmem
    rw [hcontent]
    rfl
  obtain ⟨hnext, hremembers, hdisk⟩ := recoverTurn_remembers hinv hmemory hfits
    (hkeys ▸ hnodup.filter _) hvalues
  refine ⟨hnext, hremembers, ?_, ?_, trivial⟩
  · rw [hdisk]
    show _ = List.foldl persistUse store.disk (recoverUses state.dumper keys ++ _)
    rw [List.foldl_append, recoverUses, foldl_persistUse_create hsome]
  · exact (copying_of_removes fun use hmem => exists_of_mem_recoverSetUses hmem).create_append hsome

/-- **A turn** means its operations, when its recovery does. -/
theorem turnMeans_takeTurn {start : Dumper} {filed : FiledInstance start}
    (hinv : InstanceInvariant config filed.state) (hmemory : Remembers config filed.state store)
    (hfits : FitsPhase config filed.state filed.phase) {event : ThreadEvent}
    {turn : Turn filed.state} (hturn : takeTurn config filed event = some turn)
    (hrecover : ∀ keys, event = .recover keys → filed.phase = .starting →
      TurnMeans config (recoverTurn config filed.state keys) store
        (turnOperations config filed (.recover keys))) :
    TurnMeans config turn store (turnOperations config filed event) := by
  simp only [takeTurn] at hturn
  split at hturn
  · rename_i keys hphase
    obtain rfl := Option.some.inj hturn
    exact hrecover keys rfl hphase
  · cases hturn
  · obtain rfl := Option.some.inj hturn
    exact turnMeans_dumpTurn hinv hmemory hfits
  · rename_i request hdump hphase
    split at hturn
    · obtain rfl := Option.some.inj hturn
      exact turnMeans_request hinv hmemory request
    · cases hturn
  · rename_i keyValue replacedKeys hphase
    obtain rfl := Option.some.inj hturn
    rw [hphase] at hfits
    simp only [turnOperations, hphase]
    exact turnMeans_compactAndSet hinv hmemory hfits
  · cases hturn

end Turns

end SockMyPort.Instancia
