/-
# Replacement algorithms and the status table

The functions of `algorithms.c`. The status table has one status for each slot
of the storage. The algorithms work on lists of pointers into this table, which
are modelled by lists of slot numbers, so that marking a status as used is seen
through every list that holds its slot.
-/

import SockMyPort.Instancia.EntryTable

namespace SockMyPort.Instancia

open SockMyPort.Commons

variable (config : Config)

/-- `new_value_fits`. -/
def newValueFits (state : InstanceState) (keyValue : KeyValue) : Bool :=
  decide (state.entriesLeft + entryTableAtomicEntriesCount config state.entryTable ≥
    entryTableEntriesNeeded config keyValue)

/-- `new_value_fits_with_replaced`. -/
def newValueFitsWithReplaced (state : InstanceState) (keyValue : KeyValue) : Bool :=
  decide (entryTableDiffEntries config state.entryTable keyValue ≤
    state.entriesLeft + entryTableAtomicEntriesCount config state.entryTable)

/-! ## The status table -/

/-- `convert_entry_t_to_status_t`. -/
def convertEntryToStatus (entry : Entry) : Status :=
  if entryTableIsEntryAtomic config entry then
    { status := .atomic, key := entry.key, lastReferenced := 0, spaceUsed := entry.size }
  else { status := .nonAtomic, key := entry.key, lastReferenced := 0, spaceUsed := -1 }

/-- The status of a slot that belongs to no entry when the table is built. -/
def freeStatus : Status where
  status := .free
  key := []
  lastReferenced := 0
  spaceUsed := 0

/-- The loop of `original_entry_table_migration_to_entry_table_status`, from
slot `i` on. Each turn adds at least one status, so that `fuel` turns suffice
for the `fuel` slots that are left. -/
def migrateFrom (table : List Entry) (i : ℕ) : ℕ → List Status
  | 0 => []
  | fuel + 1 =>
      if i < config.totalEntries then
        match entryTableGetEntryByEntryNumber table i with
        | some entry =>
            if entryTableIsEntryAtomic config entry then
              convertEntryToStatus config entry :: migrateFrom table (i + 1) fuel
            else
              let entryEntries := reqEntries config entry.size
              List.replicate entryEntries (convertEntryToStatus config entry) ++
                migrateFrom table (i + entryEntries) fuel
        | none => freeStatus :: migrateFrom table (i + 1) fuel
      else []

/-- `original_entry_table_migration_to_entry_table_status`. -/
def originalEntryTableMigrationToEntryTableStatus (table : List Entry) : List Status :=
  migrateFrom config table 0 config.totalEntries

/-- `entry_table_status_init`. -/
def entryTableStatusInit (state : InstanceState) : InstanceState :=
  { state with
      entryTableStatusGlobal :=
        originalEntryTableMigrationToEntryTableStatus config state.entryTable }

/-- `entry_table_status_last_referenced_add_all`. The counters are `int`s, which wrap around
after the largest one. -/
def entryTableStatusLastReferencedAddAll (table : List Status) : List Status :=
  table.map fun status =>
    if status.status ≠ .free then
      { status with lastReferenced := Int.bmod (status.lastReferenced + 1) (2 ^ 32) }
    else status

/-- Replace the statuses of `count` consecutive slots. -/
def replaceRun (table : List Status) (number : ℕ) (status : Status) : ℕ → List Status
  | 0 => table
  | count + 1 => replaceRun (table.set number status) (number + 1) status count

/-- `entry_table_status_add_kv`; at the index `-1` it only ages the table. -/
def entryTableStatusAddKv (table : List Status) (keyValue : KeyValue) (number : Option ℕ) :
    List Status :=
  let aged := entryTableStatusLastReferencedAddAll table
  match number with
  | none => aged
  | some number =>
      let entry := convertKeyValueToEntry keyValue number
      if entryTableIsEntryAtomic config entry then
        aged.set number (convertEntryToStatus config entry)
      else
        replaceRun aged number (convertEntryToStatus config entry)
          (reqEntries config entry.size)

/-- How `entry_table_status_delete_kv` leaves a slot. -/
def deletedStatus : Status where
  status := .free
  key := literal [78, 85, 76, 76]
  lastReferenced := 0
  spaceUsed := 0

/-- The loop of `entry_table_status_delete_kv`: clear the slots whose key is
the given one without regard to case, until `remaining` have been cleared. -/
def deleteKvLoop (key : CString) : List Status → ℕ → List Status
  | [], _ => []
  | status :: table, 0 => status :: table
  | status :: table, remaining + 1 =>
      if stringEqualsIgnoreCase status.key key then
        deletedStatus :: deleteKvLoop key table remaining
      else status :: deleteKvLoop key table (remaining + 1)

/-- `entry_table_status_delete_kv`. -/
def entryTableStatusDeleteKv (table : List Status) (keyValue : KeyValue) : List Status :=
  deleteKvLoop keyValue.key table (entryTableEntriesNeeded config keyValue)

/-! ## The algorithms -/

/-- What the loops of the algorithms carry from slot to slot. -/
structure Replacement where
  table : List Status
  replacedKeys : List CString
  entriesNeeded : ℤ
  totalReplaced : ℤ

/-- The body of every loop: an atomic slot is given up. -/
def Replacement.visit (replacement : Replacement) (slot : ℕ) : Replacement :=
  match replacement.table[slot]? with
  | some status =>
      if status.status = .atomic then
        { table := replacement.table.set slot { status with status := .used }
          replacedKeys := replacement.replacedKeys ++ [status.key]
          entriesNeeded := replacement.entriesNeeded - 1
          totalReplaced := replacement.totalReplaced + 1 }
      else replacement
  | none => replacement

/-- Visit slots while entries are still needed, counting the visits. -/
def Replacement.scan (replacement : Replacement) : List ℕ → Replacement × ℕ
  | [] => (replacement, 0)
  | slot :: slots =>
      if replacement.entriesNeeded = 0 then (replacement, 0)
      else
        let (scanned, visits) := (replacement.visit slot).scan slots
        (scanned, visits + 1)

/-- What an algorithm leaves behind: the state, the list of replaced keys, and
its result. -/
structure AlgorithmResult where
  state : InstanceState
  replacedKeys : List CString
  result : ℤ

/-- `algorithm_circular`, on a list of slots. -/
def algorithmCircular (state : InstanceState) (entryTable : List ℕ) (keyValue : KeyValue)
    (replacedKeys : List CString) : AlgorithmResult :=
  if !entryTableHaveEntries config state keyValue && newValueFits config state keyValue then
    let pointerCopy := state.algorithmCircularPointer
    let start : Replacement :=
      { table := state.entryTableStatusGlobal
        replacedKeys := replacedKeys
        entriesNeeded := entryTableEntriesNeeded config keyValue - state.entriesLeft
        totalReplaced := 0 }
    if pointerCopy ≥ entryTable.length ∨ pointerCopy = 0 then
      let (scanned, visits) := start.scan entryTable
      { state := { state with
          entryTableStatusGlobal := scanned.table, algorithmCircularPointer := visits }
        replacedKeys := scanned.replacedKeys
        result := scanned.totalReplaced }
    else
      let (ahead, visits) := start.scan (entryTable.drop pointerCopy)
      let (wrapped, _) := ahead.scan (entryTable.take pointerCopy)
      { state := { state with
          entryTableStatusGlobal := wrapped.table
          algorithmCircularPointer := pointerCopy + visits }
        replacedKeys := wrapped.replacedKeys
        result := wrapped.totalReplaced }
  else { state := state, replacedKeys := replacedKeys, result := -1 }

/-- The status that a slot number points to. -/
def statusAt (table : List Status) (slot : ℕ) : Status := table.getD slot freeStatus

/-- `smallest_reference`. -/
def smallestReference (first second : Status) : Bool :=
  !decide (first.lastReferenced < second.lastReferenced)

/-- `biggest_size`. -/
def biggestSize (first second : Status) : Bool :=
  !decide (first.spaceUsed < second.spaceUsed)

/-- `algorithm_lru`, on a list of slots. -/
def algorithmLru (state : InstanceState) (entryTable : List ℕ) (keyValue : KeyValue)
    (replacedKeys : List CString) : AlgorithmResult :=
  if !entryTableHaveEntries config state keyValue && newValueFits config state keyValue then
    let table := state.entryTableStatusGlobal
    let copy := config.sort.listSort
      (fun first second => smallestReference (statusAt table first) (statusAt table second))
      entryTable
    let start : Replacement :=
      { table := table
        replacedKeys := replacedKeys
        entriesNeeded := entryTableEntriesNeeded config keyValue - state.entriesLeft
        totalReplaced := 0 }
    let (scanned, _) := start.scan copy
    { state := { state with entryTableStatusGlobal := scanned.table }
      replacedKeys := scanned.replacedKeys
      result := 1 }
  else { state := state, replacedKeys := replacedKeys, result := -666 }

/-- The loop of `algorithm_bsu` over the sorted copy. `sameSize` is the list of
statuses of equal size, which the loop never empties; with more than one of
them the choice is left to the circular algorithm. -/
def bsuLoop (keyValue : KeyValue) :
    List ℕ → InstanceState → List CString → ℤ → List ℕ → InstanceState × List CString
  | [], state, replacedKeys, _, _ => (state, replacedKeys)
  | slot :: slots, state, replacedKeys, entriesNeeded, sameSize =>
      if entriesNeeded = 0 then (state, replacedKeys)
      else
        let status := statusAt state.entryTableStatusGlobal slot
        if status.status = .atomic then
          let sameSize := sameSize ++ (slot :: slots).filter fun other =>
            (statusAt state.entryTableStatusGlobal other).spaceUsed = status.spaceUsed
          if sameSize.length > 1 then
            let kv := keyValueGenerator keyValue.key (entriesNeeded.toNat * config.entrySize)
            let chosen := algorithmCircular config state sameSize kv replacedKeys
            bsuLoop keyValue slots chosen.state chosen.replacedKeys
              (entriesNeeded - chosen.result) sameSize
          else
            bsuLoop keyValue slots
              { state with
                  entryTableStatusGlobal :=
                    state.entryTableStatusGlobal.set slot { status with status := .used } }
              (replacedKeys ++ [status.key]) (entriesNeeded - 1) sameSize
        else bsuLoop keyValue slots state replacedKeys entriesNeeded sameSize

/-- `algorithm_bsu`, on a list of slots. -/
def algorithmBsu (state : InstanceState) (entryTable : List ℕ) (keyValue : KeyValue)
    (replacedKeys : List CString) : AlgorithmResult :=
  if !entryTableHaveEntries config state keyValue && newValueFits config state keyValue then
    let table := state.entryTableStatusGlobal
    let copy := config.sort.listSort
      (fun first second => biggestSize (statusAt table first) (statusAt table second)) entryTable
    let (chosen, replaced) := bsuLoop config keyValue copy state replacedKeys
      (entryTableEntriesNeeded config keyValue - state.entriesLeft) []
    { state := chosen, replacedKeys := replaced, result := 1 }
  else { state := state, replacedKeys := replacedKeys, result := -666 }

/-- `algorithms_exec`. -/
def algorithmsExec (algorithmId : AlgorithmId) (state : InstanceState) (entryTable : List ℕ)
    (keyValue : KeyValue) (replacedKeys : List CString) : AlgorithmResult :=
  match algorithmId with
  | .circular => algorithmCircular config state entryTable keyValue replacedKeys
  | .lru => algorithmLru config state entryTable keyValue replacedKeys
  | .bsu => algorithmBsu config state entryTable keyValue replacedKeys
  | .unknown => { state := state, replacedKeys := replacedKeys, result := -1 }

end SockMyPort.Instancia
