/-
# The instance as a store with a memory and a disk

The entry table with the storage is a memory, and the files of the dumper are a disk. A
SET puts a value into memory and evicts the keys that it replaces from both levels, STORE
and the dump thread copy from memory to disk, and a recovery copies from disk to memory.
Every turn of a thread is some of these operations, as long as keys that were never stored
are not removed from the dumper, and so is what a kill in the middle of a turn leaves.
-/

import SockMyPort.Instancia.EvictionFiles
import SockMyPort.Instancia.Files
import SockMyPort.Instancia.Recovery

namespace SockMyPort.Instancia

open SockMyPort.Commons Library

variable {config : Config}

/-! ## What the calls mean -/

/-- The operations on the store of an instance. -/
abbrev Operation := StoreOperation CString CString Cut

/-- The store of an instance: values in memory, and files. -/
abbrev InstanceStore := WriteBack CString CString (List UInt8)

/-- What a call of the dumper means. The removal of a key belongs to its eviction. -/
def DumperUse.operations : DumperUse → List Operation
  | .create _ => []
  | .store key _ => [.store key]
  | .remove key => [.evict key]

/-- What a call of `instance_set` means for its key, by its status. -/
def StatusCi.operations (status : StatusCi) (key : CString) (placed : Operation) :
    List Operation :=
  match status with
  | .ok => [placed]
  | .compact => [.drop key]
  | _ => []

variable (config)

/-- A call of `instance_set`, where `placed` says where the value comes from. -/
def setOperations (state : InstanceState) (keyValue : KeyValue) (replacedKeys : List CString)
    (placed : Operation) : List Operation :=
  (setUses config state keyValue replacedKeys).flatMap DumperUse.operations ++
    (instanceSet config state keyValue replacedKeys).status.operations keyValue.key placed

/-- The loop of `instance_recover`. -/
def recoverOperations (recovered : SetResult) : List KeyValue → List Operation
  | [] => []
  | keyValue :: keyValues =>
      setOperations config recovered.state keyValue recovered.replacedKeys
          (.recover keyValue.key) ++
        recoverOperations
          (instanceSet config recovered.state keyValue recovered.replacedKeys) keyValues

/-- A request, up to the answer of a SET. -/
def requestOperations (state : InstanceState) : Request → List Operation
  | .set request =>
      if !(request.isNew || entryTableHasKey state.entryTable request.keyValue.key request.isNew)
      then []
      else setOperations config state request.keyValue []
        (.put request.keyValue.key request.keyValue.value)
  | .store key _ => [.store key]
  | .dump => [.dump]
  | .compact | .requestValue _ _ | .isAlive | .kill => []

variable {start : Dumper}

/-- What a turn means. -/
def turnOperations (filed : FiledInstance start) : ThreadEvent → List Operation
  | .recover keys =>
      let recovering := dumperRecover filed.state.dumper keys
      recoverOperations config
        { state := { filed.state with dumper := recovering.1 }, replacedKeys := [], status := .ok }
        recovering.2
  | .request request => requestOperations config filed.state request
  | .compactAndSet =>
      match filed.phase with
      | .compacting keyValue replacedKeys =>
          setOperations config (compactationCompact config filed.state) keyValue replacedKeys
            (.put keyValue.key keyValue.value)
      | _ => []

variable {config}

/-! ## The disk -/

section Disk

variable {store : InstanceStore} {uses later : List DumperUse}

/-- A call that finds in memory what it stores, and on disk what it opens. -/
def DumperUse.Copies (store : InstanceStore) : DumperUse → Prop
  | .create key => (store.disk key).isSome = true
  | .store key data => (store.memory key).map bytesOf = some data
  | .remove _ => True

/-- Some calls, the one after the other. -/
def Copying (store : InstanceStore) : List DumperUse → Prop
  | [] => True
  | use :: uses => use.Copies store ∧ Copying (store.applyAll use.operations) uses

/-- What a call that a kill cuts off means. -/
def DumperUse.cutOperations : DumperUse → Option Cut → List Operation
  | .store key _, some cut => [.tear key cut]
  | _, _ => []

/-- What some calls mean of which the first ones are made and the next one is cut off. -/
def cutOperations (cut : Option Cut) : List DumperUse → ℕ → List Operation
  | [], _ => []
  | use :: _, 0 => use.cutOperations cut
  | use :: uses, calls + 1 => use.operations ++ cutOperations cut uses calls

/-- One call. -/
theorem disk_operations {use : DumperUse} (hcopies : use.Copies store) :
    (store.applyAll use.operations).disk = persistUse store.disk use := by
  cases use with
  | create key =>
      obtain ⟨content, hcontent⟩ := Option.isSome_iff_exists.mp hcopies
      show store.disk = Function.update store.disk key (some ((store.disk key).getD []))
      rw [hcontent, Option.getD_some, ← hcontent, Function.update_eq_self]
  | store key data =>
      have hdata : (store.memory key).map bytesOf = some data := hcopies
      show Function.update store.disk key
        (((store.memory key).map bytesOf).or (store.disk key)) = _
      rw [hdata, Option.some_or]
      rfl
  | remove key => rfl

/-- One call that is cut off. -/
theorem disk_useCutOperations {use : DumperUse} (hcopies : use.Copies store) (cut : Option Cut) :
    (store.applyAll (use.cutOperations cut)).disk = persistCut store.disk use cut := by
  cases use with
  | create key | remove key => rfl
  | store key data =>
      cases cut with
      | none => rfl
      | some cut =>
          obtain ⟨value, hvalue, hdata⟩ := Option.map_eq_some_iff.mp hcopies
          show Function.update store.disk key (((store.memory key).map fun value =>
            torn (store.disk key) (bytesOf value) cut).or (store.disk key)) = _
          rw [hvalue, Option.map_some, Option.some_or, hdata]
          rfl

/-- **A kill** among some calls leaves on disk what the operations up to it say. -/
theorem disk_cutOperations (hcopying : Copying store uses) (calls : ℕ) (cut : Option Cut) :
    (store.applyAll (cutOperations cut uses calls)).disk =
      persistUses cut store.disk uses calls := by
  induction uses generalizing store calls with
  | nil => rfl
  | cons use uses ih =>
      obtain ⟨hcopies, hrest⟩ := hcopying
      cases calls with
      | zero => exact disk_useCutOperations hcopies cut
      | succ calls =>
          rw [cutOperations, WriteBack.applyAll_append, ih hrest, disk_operations hcopies]
          rfl

theorem copying_of_removes (hremoves : ∀ use ∈ uses, ∃ key, use = .remove key) :
    Copying store uses := by
  induction uses generalizing store with
  | nil => trivial
  | cons use uses ih =>
      obtain ⟨key, rfl⟩ := hremoves use List.mem_cons_self
      exact ⟨trivial, ih fun other hmem => hremoves other (List.mem_cons_of_mem _ hmem)⟩

/-- Storing leaves the memory as it is. -/
theorem copying_of_stores (hstores : ∀ use ∈ uses, ∃ key data,
      use = .store key data ∧ (store.memory key).map bytesOf = some data) :
    Copying store uses := by
  induction uses generalizing store with
  | nil => trivial
  | cons use uses ih =>
      obtain ⟨key, data, rfl, hdata⟩ := hstores use List.mem_cons_self
      exact ⟨hdata, ih fun other hmem => hstores other (List.mem_cons_of_mem _ hmem)⟩

/-- Opening files that exist leaves everything as it is. -/
theorem Copying.create_append (hcopying : Copying store later) {keys : List CString}
    (hfiles : ∀ key ∈ keys, (store.disk key).isSome = true) :
    Copying store (keys.map .create ++ later) := by
  induction keys with
  | nil => exact hcopying
  | cons key keys ih =>
      exact ⟨hfiles key List.mem_cons_self,
        ih fun other hmem => hfiles other (List.mem_cons_of_mem _ hmem)⟩

end Disk

/-! ## Evictions -/

/-- A call of `instance_set` removes the keys that it returns as replaced, or none. -/
theorem setUses_cases (config : Config) (state : InstanceState) (keyValue : KeyValue)
    (replacedKeys : List CString) :
    (setUses config state keyValue replacedKeys = [] ∧
      (instanceSet config state keyValue replacedKeys).replacedKeys = replacedKeys) ∨
    setUses config state keyValue replacedKeys =
      (instanceSet config state keyValue replacedKeys).replacedKeys.map .remove := by
  by_cases hfits : newValueFitsWithReplaced config state keyValue = true
  · by_cases hroom : entryTableHasEntries config state keyValue = true
    · left
      simp only [setUses, instanceSet, instanceSetReplace, hfits, hroom, Bool.not_true,
        Bool.false_eq_true, if_false, and_self]
    · obtain ⟨evicted, hreplaces, hzero⟩ := algorithmsExec_replaces config
        config.replacementAlgorithm state (List.range state.entryTableStatusGlobal.length) keyValue
        replacedKeys
      simp only [setUses, instanceSet, instanceSetReplace, hfits, hroom, Bool.not_true,
        Bool.not_false, Bool.false_eq_true, if_false, if_true]
      split
      · rename_i hresult
        left
        refine ⟨rfl, ?_⟩
        rw [hreplaces.replacedKeys, hzero hresult, List.append_nil]
      · exact .inr rfl
  · left
    simp only [setUses, instanceSet, hfits, Bool.not_false, if_true, and_self]

theorem flatMap_operations (keys : List CString) :
    (keys.map DumperUse.remove).flatMap DumperUse.operations = keys.map .evict := by
  induction keys with
  | nil => rfl
  | cons key keys ih =>
      rw [List.map_cons, List.flatMap_cons, ih]
      rfl

/-- The removals on disk are those of the evictions. -/
theorem foldl_persistUse_remove (files : CString → Option (List UInt8)) (keys : List CString) :
    (keys.map DumperUse.remove).foldl persistUse files =
      fun key => if key ∈ keys then none else files key := by
  induction keys generalizing files with
  | nil => simp
  | cons key keys ih =>
      rw [List.map_cons, List.foldl_cons, ih]
      funext other
      by_cases hother : other = key
      · simp [hother, persistUse]
      · simp [hother, persistUse]

/-! ## The memory -/

variable {state : InstanceState} {store : InstanceStore} {keyValue : KeyValue}
  {replacedKeys : List CString}

variable (config) in
/-- The contents of an instance are what a store has in memory. -/
def Remembers (state : InstanceState) (store : InstanceStore) : Prop :=
  ∀ key, contents config state key = (store.memory key).map bytesOf

/-- A store after the evictions of a call of `instance_set`. -/
def evicted (config : Config) (state : InstanceState) (keyValue : KeyValue)
    (replacedKeys : List CString) (store : InstanceStore) :
    InstanceStore :=
  store.applyAll ((setUses config state keyValue replacedKeys).flatMap DumperUse.operations)

/-- The evictions are in step with the removals from the dumper. -/
theorem evicted_disk (config : Config) (state : InstanceState) (keyValue : KeyValue)
    (replacedKeys : List CString) (store : InstanceStore) :
    (evicted config state keyValue replacedKeys store).disk =
    (setUses config state keyValue replacedKeys).foldl persistUse store.disk := by
  rw [evicted]
  obtain ⟨huses, -⟩ | huses := setUses_cases config state keyValue replacedKeys
  · rw [huses]
    rfl
  · rw [huses, flatMap_operations, WriteBack.applyAll_evict, foldl_persistUse_remove]
    funext key
    by_cases hmem : key ∈ (instanceSet config state keyValue replacedKeys).replacedKeys
    · simp [hmem]
    · simp [hmem]

/-- They are the keys that the contents forget. -/
theorem evicted_memory (hremembers : Remembers config state store) (keyValue : KeyValue)
    (hgone : ∀ key ∈ replacedKeys, contents config state key = none) (key : CString) :
    (contents config state).forget
        (instanceSet config state keyValue replacedKeys).replacedKeys key =
      ((evicted config state keyValue replacedKeys store).memory key).map bytesOf := by
  rw [evicted]
  obtain ⟨huses, hkeys⟩ | huses := setUses_cases config state keyValue replacedKeys
  · rw [huses, hkeys, Contents.forget_of_absent hgone]
    exact hremembers key
  · rw [huses, flatMap_operations, WriteBack.applyAll_evict, Contents.forget]
    dsimp only
    split
    · rfl
    · exact hremembers key

/-- **A call of `instance_set`** does to the store what its operations say, on both
levels. -/
theorem Remembers.set (hremembers : Remembers config state store) (keyValue : KeyValue)
    (placed : Operation) (inv : InstanceInvariant config state) (hvalue : keyValue.value ≠ [])
    (hshort : ∀ key ∈ replacedKeys, key.length ≤ 40)
    (hgone : ∀ key ∈ replacedKeys, contents config state key = none)
    (hplaced : (evicted config state keyValue replacedKeys store).apply placed =
      (evicted config state keyValue replacedKeys store).apply
        (.put keyValue.key keyValue.value)) :
    Remembers config (instanceSet config state keyValue replacedKeys).state
        (store.applyAll (setOperations config state keyValue replacedKeys placed)) ∧
      (store.applyAll (setOperations config state keyValue replacedKeys placed)).disk =
        (setUses config state keyValue replacedKeys).foldl persistUse store.disk := by
  have hmemory := evicted_memory hremembers keyValue hgone
  have hdisk := evicted_disk config state keyValue replacedKeys store
  obtain ⟨-, hcontents, -⟩ := inv.instanceSet keyValue replacedKeys hvalue hshort hgone
  rw [setOperations, WriteBack.applyAll_append, ← evicted]
  generalize evicted config state keyValue replacedKeys store = kept at hplaced hmemory hdisk ⊢
  rw [Remembers, hcontents]
  cases hstatus : (instanceSet config state keyValue replacedKeys).status with
  | ok =>
      rw [StatusCi.operations, WriteBack.applyAll_cons, WriteBack.applyAll_nil, hplaced]
      refine ⟨fun key => ?_, hdisk⟩
      simp only [SetCall.effect, WriteBack.apply]
      by_cases hkey : key = keyValue.key
      · rw [hkey, Function.update_self, Function.update_self, Option.map_some]
      · rw [Function.update_of_ne hkey, Function.update_of_ne hkey]
        exact hmemory key
  | compact =>
      refine ⟨fun key => ?_, hdisk⟩
      simp only [SetCall.effect, StatusCi.operations, WriteBack.applyAll_cons,
        WriteBack.applyAll_nil, WriteBack.apply]
      by_cases hkey : key = keyValue.key
      · rw [hkey, Function.update_self, Function.update_self, Option.map_none]
      · rw [Function.update_of_ne hkey, Function.update_of_ne hkey]
        exact hmemory key
  | replaced => exact ⟨hmemory, hdisk⟩
  | noSpace => exact ⟨hmemory, hdisk⟩
  | error => exact ⟨hmemory, hdisk⟩

/-! ## Keys that can be evicted -/

/-- The keys of the atomic statuses are among some keys. -/
def AtomicAmong (keys : List CString) (statuses : List Status) : Prop :=
  ∀ status ∈ statuses, status.status = .atomic → status.key ∈ keys

variable {keys : List CString} {statuses : List Status}

theorem AtomicAmong.evicts (hamong : AtomicAmong keys statuses) {after : List Status}
    {gone : List CString} (hevicts : Evicts statuses after gone) :
    AtomicAmong keys after ∧ ∀ key ∈ gone, key ∈ keys := by
  constructor
  · intro status hmem hatomic
    obtain ⟨i, hi⟩ := List.mem_iff_getElem?.mp hmem
    obtain hsame | ⟨old, -, -, -, hnew⟩ := hevicts.slots i
    · exact hamong status (List.mem_of_getElem? (hsame.symm.trans hi)) hatomic
    · obtain rfl := Option.some.inj (hi.symm.trans hnew)
      cases hatomic
  · intro key hmem
    obtain ⟨i, status, hstatus, hatomic, rfl, -⟩ := hevicts.keys key hmem
    exact hamong status (List.mem_of_getElem? hstatus) hatomic

theorem AtomicAmong.add (hamong : AtomicAmong keys statuses) (hsize : 0 < keyValue.size)
    (number : ℕ) :
    AtomicAmong (keys ++ [keyValue.key])
      (entryTableStatusAddKv config statuses keyValue number) := by
  intro status hmem hatomic
  rw [entryTableStatusAddKv_eq hsize] at hmem
  obtain hold | rfl := StatusTableWellFormed.mem_replaceRun hmem
  · obtain ⟨old, hin, rfl⟩ := List.mem_map.mp hold
    rw [Status.age_status] at hatomic
    rw [Status.age_key]
    exact List.mem_append_left _ (hamong old hin hatomic)
  · rw [StatusTableWellFormed.convertEntryToStatus_key]
    exact List.mem_append_right _ (List.mem_singleton_self _)

/-- A new key that is placed, or not, is the only one that comes to be among them. -/
theorem AtomicAmong.instanceSetPlace (hamong : AtomicAmong keys state.entryTableStatusGlobal)
    (hvalue : keyValue.value ≠ []) (hnew : contents config state keyValue.key = none) :
    AtomicAmong (keys ++ [keyValue.key])
      (instanceSetPlace config state keyValue).1.entryTableStatusGlobal := by
  have hmore : AtomicAmong (keys ++ [keyValue.key]) state.entryTableStatusGlobal :=
    fun status hmem hatomic => List.mem_append_left _ (hamong status hmem hatomic)
  have habsent : entryTableHasKey state.entryTable keyValue.key false = false := by
    rw [hasKey_eq_isSome, Option.map_eq_none_iff.mp hnew]
    rfl
  have hsize : 0 < keyValue.size := by
    rw [keyValue.size_eq]
    exact List.length_pos_of_ne_nil hvalue
  simp only [Instancia.instanceSetPlace, habsent, Bool.false_eq_true, if_false]
  split
  · exact hmore
  · split
    · exact hmore
    · rename_i nextEntry hnext
      split
      · exact hmore
      · rename_i stored hset
        have hstatuses :
            (entryTableInsert config stored nextEntry keyValue).entryTableStatusGlobal =
            state.entryTableStatusGlobal := by
          rw [entryTableInsert_statuses]
          simp only [storageSet] at hset
          split at hset
          · cases hset
          · obtain rfl := Option.some.inj hset
            rfl
        rw [hstatuses]
        exact hamong.add hsize nextEntry

/-- **A new key**: what a call of `instance_set` replaces is among the keys before it. -/
theorem AtomicAmong.instanceSet (hamong : AtomicAmong keys state.entryTableStatusGlobal)
    (inv : InstanceInvariant config state) (hvalue : keyValue.value ≠ [])
    (hnew : contents config state keyValue.key = none)
    (hshort : ∀ key ∈ replacedKeys, key.length ≤ 40)
    (hgone : ∀ key ∈ replacedKeys, contents config state key = none)
    (hreplaced : ∀ key ∈ replacedKeys, key ∈ keys) :
    AtomicAmong (keys ++ [keyValue.key])
        (instanceSet config state keyValue replacedKeys).state.entryTableStatusGlobal ∧
      ∀ key ∈ (Instancia.instanceSet config state keyValue replacedKeys).replacedKeys,
        key ∈ keys := by
  have houtcome := inv.instanceSetReplace keyValue replacedKeys hshort
    fun key hmem => Option.map_eq_none_iff.mp (hgone key hmem)
  obtain ⟨given, hkeys, hevicts⟩ := houtcome.evicts
  obtain ⟨hafter, hgiven⟩ := hamong.evicts hevicts
  have hall : ∀ key ∈ (instanceSetReplace config state keyValue replacedKeys).2.1, key ∈ keys := by
    intro key hmem
    rw [hkeys] at hmem
    obtain hmem | hmem := List.mem_append.mp hmem
    · exact hreplaced key hmem
    · exact hgiven key hmem
  have hstill : contents config (instanceSetReplace config state keyValue replacedKeys).1
      keyValue.key = none := by
    rw [houtcome.contents, Contents.forget, hnew, ite_self]
  simp only [Instancia.instanceSet]
  split
  · exact ⟨fun status hmem hatomic => List.mem_append_left _ (hamong status hmem hatomic),
      hreplaced⟩
  · rcases hreplace : instanceSetReplace config state keyValue replacedKeys with
      ⟨replaced, gone, _ | _⟩
    · rw [hreplace] at hafter hall
      exact ⟨fun status hmem hatomic => List.mem_append_left _ (hafter status hmem hatomic), hall⟩
    · rw [hreplace] at hafter hall hstill
      exact ⟨hafter.instanceSetPlace hvalue hstill, hall⟩

/-! ## Recovery -/

variable {done : List CString} {recovered : SetResult}

variable (config) in
/-- An instance that has set some recovered keys. What it has replaced is among them. -/
structure Recovering (done : List CString) (recovered : SetResult)
    (store : InstanceStore) : Prop where
  inv : InstanceInvariant config recovered.state
  memory : Remembers config recovered.state store
  replacedShort : ∀ key ∈ recovered.replacedKeys, key.length ≤ 40
  replacedGone : ∀ key ∈ recovered.replacedKeys, contents config recovered.state key = none
  replacedDone : ∀ key ∈ recovered.replacedKeys, key ∈ done
  contentsDone : ∀ key, contents config recovered.state key ≠ none → key ∈ done
  atomicDone : AtomicAmong done recovered.state.entryTableStatusGlobal

/-- Only keys among some are removed from the disk. -/
theorem foldl_persistUse_setUses_of_not_mem {files : CString → Option (List UInt8)} {key : CString}
    (hreplaced : ∀ other ∈ (instanceSet config state keyValue replacedKeys).replacedKeys,
      other ∈ done) (hkey : key ∉ done) :
    (setUses config state keyValue replacedKeys).foldl persistUse files key = files key := by
  obtain ⟨huses, -⟩ | huses := setUses_cases config state keyValue replacedKeys
  · rw [huses]
    rfl
  · rw [huses, foldl_persistUse_remove]
    exact if_neg fun hmem => hkey (hreplaced key hmem)

namespace Recovering

/-- **One more key** is set to the value that it has on disk. -/
theorem set (h : Recovering config done recovered store) (hfresh : keyValue.key ∉ done)
    (hvalue : keyValue.value ≠ [])
    (hdisk : (store.disk keyValue.key).map messengerBytesToString = some keyValue.value) :
    let operations := setOperations config recovered.state keyValue recovered.replacedKeys
      (.recover keyValue.key)
    Recovering config (done ++ [keyValue.key])
        (instanceSet config recovered.state keyValue recovered.replacedKeys)
        (store.applyAll operations) ∧
      (store.applyAll operations).disk =
        (setUses config recovered.state keyValue recovered.replacedKeys).foldl persistUse
          store.disk ∧
      ∀ key, key ∉ done → (store.applyAll operations).disk key = store.disk key := by
  intro operations
  have hnew : contents config recovered.state keyValue.key = none := by
    by_contra hsome
    exact hfresh (h.contentsDone _ hsome)
  obtain ⟨hatomic, hreplaced⟩ := h.atomicDone.instanceSet h.inv hvalue hnew h.replacedShort
    h.replacedGone h.replacedDone
  obtain ⟨hinv, hcontents, hshort⟩ := h.inv.instanceSet keyValue recovered.replacedKeys hvalue
    h.replacedShort h.replacedGone
  -- The evictions leave the file of the key alone.
  have hkept : ((evicted config recovered.state keyValue recovered.replacedKeys store).disk
      keyValue.key).map DiskFormat.decode = some keyValue.value := by
    rw [evicted_disk, foldl_persistUse_setUses_of_not_mem hreplaced hfresh]
    exact hdisk
  obtain ⟨hmemory, hpersists⟩ := h.memory.set keyValue (.recover keyValue.key) h.inv hvalue
    h.replacedShort h.replacedGone (by simp only [WriteBack.apply, hkept])
  refine ⟨⟨hinv, hmemory, hshort, ?_, ?_, ?_, hatomic⟩, hpersists, fun key hkey => ?_⟩
  · intro key hmem
    have hne : key ≠ keyValue.key := by
      rintro rfl
      exact hfresh (hreplaced _ hmem)
    rw [hcontents]
    cases hstatus : (instanceSet config recovered.state keyValue recovered.replacedKeys).status <;>
      simp [SetCall.effect, Contents.forget, hmem, hne]
  · exact fun key hmem => List.mem_append_left _ (hreplaced key hmem)
  · intro key hsome
    by_cases hkey : key = keyValue.key
    · rw [hkey]
      exact List.mem_append_right _ (List.mem_singleton_self _)
    · refine List.mem_append_left _ (h.contentsDone key fun hnone => hsome ?_)
      rw [hcontents]
      cases hstatus :
          (instanceSet config recovered.state keyValue recovered.replacedKeys).status <;>
        simp [SetCall.effect, Contents.forget, hnone, hkey]
  · rw [hpersists, foldl_persistUse_setUses_of_not_mem hreplaced hkey]

/-- **The loop** sets every key, the one behind the other, to the value that it has on
disk. -/
theorem loop (h : Recovering config done recovered store) (keyValues : List KeyValue)
    (hkeys : (done ++ keyValues.map KeyValue.key).Nodup)
    (hvalues : ∀ keyValue ∈ keyValues,
      keyValue.value ≠ [] ∧
        (store.disk keyValue.key).map messengerBytesToString = some keyValue.value) :
    Recovering config (done ++ keyValues.map KeyValue.key)
        (keyValues.foldl (fun recovered keyValue =>
          instanceSet config recovered.state keyValue recovered.replacedKeys) recovered)
        (store.applyAll (recoverOperations config recovered keyValues)) ∧
      (store.applyAll (recoverOperations config recovered keyValues)).disk =
        (recoverSetUses config recovered keyValues).foldl persistUse store.disk := by
  induction keyValues generalizing done recovered store with
  | nil => exact ⟨by rwa [List.map_nil, List.append_nil], rfl⟩
  | cons keyValue keyValues ih =>
      rw [List.map_cons, List.append_cons] at hkeys
      have hfresh : keyValue.key ∉ done := fun hmem =>
        List.disjoint_of_nodup_append hkeys.of_append_left hmem (List.mem_singleton_self _)
      obtain ⟨hvalue, hdisk⟩ := hvalues keyValue List.mem_cons_self
      obtain ⟨hset, hpersists, hsame⟩ := h.set hfresh hvalue hdisk
      obtain ⟨hloop, hrest⟩ := ih hset hkeys fun other hmem => by
        obtain ⟨hother, hotherDisk⟩ := hvalues other (List.mem_cons_of_mem _ hmem)
        refine ⟨hother, (congrArg _ (hsame _ fun hdone => ?_)).trans hotherDisk⟩
        exact List.disjoint_of_nodup_append hkeys (List.mem_append_left _ hdone)
          (List.mem_map_of_mem hmem)
      rw [recoverOperations, recoverSetUses, WriteBack.applyAll_append, List.map_cons,
        List.append_cons, List.foldl_append, ← hpersists]
      exact ⟨hloop, hrest⟩

end Recovering

end SockMyPort.Instancia
