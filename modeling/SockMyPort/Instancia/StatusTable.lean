/-
# Updating the status table

Slot by slot, what adding a value and deleting a key do to the status table, and
the invariant that all updates share: one status for each slot of the storage,
and no key longer than a key can be.
-/

import SockMyPort.Instancia.Eviction

namespace SockMyPort.Instancia

open SockMyPort.Commons

variable {config : Config}

/-! ## Building -/

/-- Without entries every slot is free. -/
theorem migrateFrom_nil (i fuel : ℕ) (hfuel : i + fuel = config.totalEntries) :
    migrateFrom config [] i fuel = List.replicate fuel freeStatus := by
  induction fuel generalizing i with
  | zero => rfl
  | succ fuel ih =>
      rw [migrateFrom, if_pos (by omega)]
      simp only [entryTableGetEntryByEntryNumber, List.find?_nil, List.replicate_succ]
      rw [ih (i + 1) (by omega)]

/-! ## Adding -/

@[simp]
theorem length_replaceRun (table : List Status) (number : ℕ) (status : Status) (count : ℕ) :
    (replaceRun table number status count).length = table.length := by
  induction count generalizing table number with
  | zero => rfl
  | succ count ih => rw [replaceRun, ih, List.length_set]

/-- A run is replaced slot by slot. -/
theorem getElem?_replaceRun {table : List Status} {number count i : ℕ} {status : Status}
    (hi : i < table.length) :
    (replaceRun table number status count)[i]? =
      if number ≤ i ∧ i < number + count then some status else table[i]? := by
  induction count generalizing table number with
  | zero =>
      rw [if_neg (by omega)]
      rfl
  | succ count ih =>
      rw [replaceRun, ih (by rwa [List.length_set])]
      by_cases hhere : number = i
      · subst hhere
        rw [if_neg (by omega), if_pos (by omega), List.getElem?_set_self hi]
      · rw [List.getElem?_set_ne hhere]
        congr 1
        simp only [eq_iff_iff]
        omega

/-- A value takes one slot when it is atomic. -/
theorem reqEntries_of_atomic {entry : Entry} (hatomic : entryTableIsEntryAtomic config entry = true)
    (hsize : 0 < entry.size) : reqEntries config entry.size = 1 := by
  simp only [entryTableIsEntryAtomic, decide_eq_true_eq] at hatomic
  simp only [reqEntries]
  rcases Nat.lt_or_eq_of_le hatomic with hlt | heq
  · rw [Nat.mod_eq_of_lt hlt, Nat.div_eq_of_lt hlt, if_neg (by omega)]
  · have hpos := config.entrySize_pos
    rw [heq, Nat.mod_self, Nat.div_self hpos, if_pos rfl]

/-- One more reference for every status in use. -/
def Status.age (status : Status) : Status :=
  if status.status ≠ .free then
    { status with lastReferenced := Int.bmod (status.lastReferenced + 1) (2 ^ 32) }
  else status

@[simp]
theorem Status.age_status (status : Status) : status.age.status = status.status := by
  simp only [Status.age]
  split <;> rfl

@[simp]
theorem Status.age_key (status : Status) : status.age.key = status.key := by
  simp only [Status.age]
  split <;> rfl

@[simp]
theorem Status.age_spaceUsed (status : Status) : status.age.spaceUsed = status.spaceUsed := by
  simp only [Status.age]
  split <;> rfl

theorem entryTableStatusLastReferencedAddAll_eq (table : List Status) :
    entryTableStatusLastReferencedAddAll table = table.map Status.age := rfl

/-- Adding a value writes its status over its run and ages the other slots. -/
theorem entryTableStatusAddKv_eq {keyValue : KeyValue} (hsize : 0 < keyValue.size)
    (table : List Status) (number : ℕ) :
    entryTableStatusAddKv config table keyValue (some number) =
      replaceRun (table.map Status.age) number
        (convertEntryToStatus config (convertKeyValueToEntry keyValue number))
        (reqEntries config keyValue.size) := by
  simp only [entryTableStatusAddKv, entryTableStatusLastReferencedAddAll_eq]
  split
  · rename_i hatomic
    have hone := reqEntries_of_atomic hatomic hsize
    simp only [convertKeyValueToEntry] at hone ⊢
    rw [hone]
    rfl
  · rfl

@[simp]
theorem length_entryTableStatusAddKv (table : List Status) (keyValue : KeyValue)
    (number : Option ℕ) :
    (entryTableStatusAddKv config table keyValue number).length = table.length := by
  cases number with
  | none => simp [entryTableStatusAddKv, entryTableStatusLastReferencedAddAll_eq]
  | some number =>
      simp only [entryTableStatusAddKv, entryTableStatusLastReferencedAddAll_eq]
      split <;> simp

/-! ## Deleting -/

@[simp]
theorem length_deleteKvLoop (key : CString) (table : List Status) (remaining : ℕ) :
    (deleteKvLoop key table remaining).length = table.length := by
  fun_induction deleteKvLoop key table remaining with
  | case1 => rfl
  | case2 => rfl
  | case3 status table remaining hkey ih => rw [List.length_cons, ih, List.length_cons]
  | case4 status table remaining hkey ih => rw [List.length_cons, ih, List.length_cons]

@[simp]
theorem length_entryTableStatusDeleteKv (table : List Status) (keyValue : KeyValue) :
    (entryTableStatusDeleteKv config table keyValue).length = table.length :=
  length_deleteKvLoop _ _ _

/-- The comparison by which `entry_table_status_delete_kv` finds its slots. -/
def Status.isNamed (key : CString) (status : Status) : Bool :=
  stringEqualsIgnoreCase status.key key

/-- A slot is cleared when it is named like the key and fewer than `remaining`
slots before it are. -/
def deleteKvClears (key : CString) (table : List Status) (remaining i : ℕ) : Bool :=
  table[i]?.any (Status.isNamed key) &&
    decide ((table.take i).countP (Status.isNamed key) < remaining)

/-- The loop clears these slots and no others. -/
theorem getElem?_deleteKvLoop (key : CString) (table : List Status) (remaining i : ℕ) :
    (deleteKvLoop key table remaining)[i]? =
      if deleteKvClears key table remaining i then some deletedStatus else table[i]? := by
  induction table generalizing remaining i with
  | nil => simp [deleteKvLoop, deleteKvClears]
  | cons status table ih =>
      cases remaining with
      | zero => simp [deleteKvLoop, deleteKvClears]
      | succ remaining =>
          by_cases hnamed : status.isNamed key = true
          · have hloop : deleteKvLoop key (status :: table) (remaining + 1) =
                deletedStatus :: deleteKvLoop key table remaining := by
              rw [deleteKvLoop]
              exact if_pos hnamed
            rw [hloop]
            cases i with
            | zero => simp [deleteKvClears, hnamed]
            | succ i =>
                rw [List.getElem?_cons_succ, ih]
                simp [deleteKvClears, hnamed]
          · have hloop : deleteKvLoop key (status :: table) (remaining + 1) =
                status :: deleteKvLoop key table (remaining + 1) := by
              rw [deleteKvLoop]
              exact if_neg hnamed
            rw [hloop]
            cases i with
            | zero => simp [deleteKvClears, hnamed]
            | succ i =>
                rw [List.getElem?_cons_succ, ih]
                simp [deleteKvClears, hnamed]

/-! ## Well-formed tables -/

variable (config) in
/-- One status for each slot, with keys of the length that keys have. -/
structure StatusTableWellFormed (table : List Status) : Prop where
  length : table.length = config.totalEntries
  keyShort : ∀ status ∈ table, status.key.length ≤ 40

namespace StatusTableWellFormed

variable {table : List Status}

theorem mem_replaceRun {number count : ℕ} {written status : Status}
    (hmem : status ∈ replaceRun table number written count) :
    status ∈ table ∨ status = written := by
  induction count generalizing table number with
  | zero => exact .inl hmem
  | succ count ih =>
      rcases ih hmem with hset | hnew
      · exact List.mem_or_eq_of_mem_set hset
      · exact .inr hnew

theorem convertEntryToStatus_key (entry : Entry) :
    (convertEntryToStatus config entry).key = entry.key := by
  simp only [convertEntryToStatus]
  split <;> rfl

theorem add (wf : StatusTableWellFormed config table) {keyValue : KeyValue}
    (hsize : 0 < keyValue.size) (number : ℕ) :
    StatusTableWellFormed config (entryTableStatusAddKv config table keyValue number) where
  length := by rw [length_entryTableStatusAddKv, wf.length]
  keyShort status hmem := by
    rw [entryTableStatusAddKv_eq hsize] at hmem
    rcases mem_replaceRun hmem with hold | rfl
    · obtain ⟨status, hstatus, rfl⟩ := List.mem_map.mp hold
      rw [Status.age_key]
      exact wf.keyShort status hstatus
    · rw [convertEntryToStatus_key]
      exact keyValue.key_short

theorem delete (wf : StatusTableWellFormed config table) (keyValue : KeyValue) :
    StatusTableWellFormed config (entryTableStatusDeleteKv config table keyValue) where
  length := by rw [length_entryTableStatusDeleteKv, wf.length]
  keyShort := by
    have hshort := wf.keyShort
    simp only [entryTableStatusDeleteKv]
    generalize entryTableEntriesNeeded config keyValue = remaining
    clear wf
    fun_induction deleteKvLoop keyValue.key table remaining with
    | case1 => exact hshort
    | case2 => exact hshort
    | case3 status table remaining hkey ih =>
        intro other hmem
        rcases List.mem_cons.mp hmem with rfl | hmem
        · decide
        · exact ih (fun other hother => hshort other (List.mem_cons_of_mem _ hother)) other hmem
    | case4 status table remaining hkey ih =>
        intro other hmem
        rcases List.mem_cons.mp hmem with rfl | hmem
        · exact hshort other (List.mem_cons_self ..)
        · exact ih (fun other hother => hshort other (List.mem_cons_of_mem _ hother)) other hmem

theorem evicts (wf : StatusTableWellFormed config table) {after : List Status}
    {keys : List CString} (hevicts : Evicts table after keys) :
    StatusTableWellFormed config after where
  length := hevicts.length.trans wf.length
  keyShort status hmem := by
    obtain ⟨i, hi⟩ := List.mem_iff_getElem?.mp hmem
    rcases hevicts.slots i with hsame | ⟨old, hold, -, -, hnew⟩
    · exact wf.keyShort status (List.mem_of_getElem? (hsame.symm.trans hi))
    · rw [hi] at hnew
      cases hnew
      exact wf.keyShort old (List.mem_of_getElem? hold)

/-- The keys that are given up have the length that keys have. -/
theorem evicted_short (wf : StatusTableWellFormed config table) {after : List Status}
    {keys : List CString} (hevicts : Evicts table after keys) {key : CString}
    (hmem : key ∈ keys) : key.length ≤ 40 := by
  obtain ⟨i, status, hstatus, -, rfl, -⟩ := hevicts.keys key hmem
  exact wf.keyShort status (List.mem_of_getElem? hstatus)

/-- The table of an empty instance. -/
theorem init : StatusTableWellFormed config
    (originalEntryTableMigrationToEntryTableStatus config []) := by
  rw [originalEntryTableMigrationToEntryTableStatus, migrateFrom_nil _ _ (Nat.zero_add _)]
  exact ⟨List.length_replicate, fun status hmem => by
    obtain ⟨-, rfl⟩ := List.mem_replicate.mp hmem
    decide⟩

end StatusTableWellFormed

end SockMyPort.Instancia
