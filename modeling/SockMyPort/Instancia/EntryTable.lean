/-
# The entry table

The functions of `entry_table.c`, on the list of entries and the counter of
free entries. Entries are kept in the order of their first slot; an entry of
`size` bytes owns the run of `reqEntries size` slots that begins at `number`.
An index of `-1` is modelled by `none`.
-/

import SockMyPort.Instancia.State

namespace SockMyPort.Instancia

open SockMyPort.Commons

variable (config : Config)

/-- `_req_entries`: the number of entries that `size` bytes take. -/
def reqEntries (size : ℕ) : ℕ :=
  let entries := size / config.entrySize
  if size % config.entrySize = 0 then entries else entries + 1

/-- `entry_table_entries_needed`. -/
def entryTableEntriesNeeded (keyValue : KeyValue) : ℕ :=
  let entries := keyValue.size / config.entrySize
  if keyValue.size % config.entrySize = 0 then entries else entries + 1

/-- `entry_table_get_entry`. -/
def entryTableGetEntry (table : List Entry) (key : CString) : Option Entry :=
  table.find? fun entry => key = entry.key

/-- `entry_table_get_entry_by_entry_number`. -/
def entryTableGetEntryByEntryNumber (table : List Entry) (number : ℕ) : Option Entry :=
  table.find? fun entry => entry.number = number

/-- `entry_table_has_key`: a new key is not looked up. -/
def entryTableHasKey (table : List Entry) (key : CString) (isNew : Bool) : Bool :=
  if !isNew then table.any fun entry => key = entry.key else false

/-- `entry_table_get_key_list`. -/
def entryTableGetKeyList (table : List Entry) : List CString := table.map Entry.key

/-- `entry_table_diff_entries`: the entries that a value takes beyond those
that its key already owns. -/
def entryTableDiffEntries (table : List Entry) (keyValue : KeyValue) : ℤ :=
  let currentReq : ℤ := reqEntries config keyValue.size
  if entryTableHasKey table keyValue.key false then
    match entryTableGetEntry table keyValue.key with
    | some oldEntry => currentReq - reqEntries config oldEntry.size
    | none => currentReq
  else currentReq

/-- `ascending`. -/
def ascending (first second : Entry) : Bool := !decide (first.number > second.number)

/-- `entry_table_is_entry_atomic`. -/
def entryTableIsEntryAtomic (entry : Entry) : Bool := decide (entry.size ≤ config.entrySize)

/-- `entry_table_atomic_entries_count`. -/
def entryTableAtomicEntriesCount (table : List Entry) : ℕ :=
  table.countP (entryTableIsEntryAtomic config)

/-- `entry_table_has_entries`. -/
def entryTableHasEntries (state : InstanceState) (keyValue : KeyValue) : Bool :=
  decide (entryTableDiffEntries config state.entryTable keyValue ≤ state.entriesLeft)

/-- `entry_table_have_entries`. -/
def entryTableHaveEntries (state : InstanceState) (keyValue : KeyValue) : Bool :=
  decide ((entryTableEntriesNeeded config keyValue : ℤ) ≤ state.entriesLeft)

/-- `entry_table_init`. -/
def entryTableInit (state : InstanceState) : InstanceState :=
  { state with entryTable := [], entriesLeft := config.totalEntries }

/-- `convert_key_value_t_to_entry_t`, with the number that its callers set. -/
def convertKeyValueToEntry (keyValue : KeyValue) (number : ℕ) : Entry where
  number := number
  size := keyValue.size
  key := keyValue.key

/-- Update the entry that `entry_table_get_entry` points to: the first one of
the key. -/
def updateEntry (key : CString) (update : Entry → Entry) : List Entry → List Entry
  | [] => []
  | entry :: table =>
      if key = entry.key then update entry :: table else entry :: updateEntry key update table

/-- `entry_table_insert` at a valid index. A key that the table lacks is added;
otherwise its entry is resized and, unless it stays in place, moved. -/
def entryTableInsert (state : InstanceState) (nextEntry : ℕ) (keyValue : KeyValue) :
    InstanceState :=
  let newEntry := convertKeyValueToEntry keyValue nextEntry
  let needed : ℤ := entryTableEntriesNeeded config keyValue
  match entryTableGetEntry state.entryTable keyValue.key with
  | none =>
      { state with
          entryTable := config.sort.listSort ascending (state.entryTable ++ [newEntry])
          entriesLeft := state.entriesLeft - needed }
  | some oldEntry =>
      let kvOld := keyValueGenerator oldEntry.key oldEntry.size
      let entriesLeft := state.entriesLeft + entryTableEntriesNeeded config kvOld - needed
      if nextEntry = oldEntry.number then
        { state with
            entryTable := updateEntry keyValue.key
              (fun entry => { entry with size := newEntry.size }) state.entryTable
            entriesLeft := entriesLeft }
      else
        { state with
            entryTable := config.sort.listSort ascending (updateEntry keyValue.key
              (fun entry => { entry with size := newEntry.size, number := newEntry.number })
              state.entryTable)
            entriesLeft := entriesLeft }

/-- The loop that looks for a gap between neighbours of the table. -/
def gapBetween (entriesNeeded : ℕ) : List Entry → Option ℕ
  | first :: second :: rest =>
      let firstEnd := first.number + reqEntries config first.size
      if (second.number : ℤ) - firstEnd ≥ entriesNeeded then some firstEnd
      else gapBetween entriesNeeded (second :: rest)
  | _ => none

/-- The search shared by `entry_table_next_entry` and
`entry_table_has_continous_entries`: before the first entry, between
neighbours, and after the last one. The last test is made on `size_t`. -/
def searchGap (entriesNeeded : ℕ) (table : List Entry) : Option ℕ :=
  match table with
  | [] => some 0
  | first :: rest =>
      if first.number > 0 ∧ first.number ≥ entriesNeeded then some 0
      else
        match gapBetween config entriesNeeded table with
        | some number => some number
        | none =>
            let last := (first :: rest).getLast (List.cons_ne_nil first rest)
            let lastEnd := last.number + reqEntries config last.size
            if toSizeT (config.totalEntries - lastEnd) ≥ entriesNeeded then some lastEnd else none

/-- The loop of `entry_table_next_entry` over the slots that follow an entry:
no entry begins at the next `extra` numbers. -/
def nothingBegins (table : List Entry) (number : ℕ) : ℕ → Bool
  | 0 => true
  | extra + 1 =>
      (entryTableGetEntryByEntryNumber table number).isNone &&
        nothingBegins table (number + 1) extra

/-- The part of `entry_table_next_entry` about a stored key: it stays in place
when it does not grow, and also when it can grow over free slots. -/
def growsInPlace (state : InstanceState) (keyValue : KeyValue) (entry : Entry) : Bool :=
  if keyValue.size ≤ entry.size then true
  else
    let existingKv := keyValueGenerator entry.key entry.size
    let existing := entryTableEntriesNeeded config existingKv
    let extraEntriesNeeded : ℤ := entryTableEntriesNeeded config keyValue - existing
    decide (extraEntriesNeeded ≤ state.entriesLeft) &&
      nothingBegins state.entryTable (entry.number + existing) extraEntriesNeeded.toNat

/-- `entry_table_next_entry`. -/
def entryTableNextEntry (state : InstanceState) (keyValue : KeyValue) : Option ℕ :=
  let entriesNeeded := entryTableEntriesNeeded config keyValue
  match entryTableGetEntry state.entryTable keyValue.key with
  | some entry =>
      if growsInPlace config state keyValue entry then some entry.number
      else searchGap config entriesNeeded state.entryTable
  | none =>
      if entryTableHaveEntries config state keyValue then
        searchGap config entriesNeeded state.entryTable
      else none

/-- `entry_table_delete`. -/
def entryTableDelete (state : InstanceState) (keyValue : KeyValue) : InstanceState :=
  match entryTableGetEntry state.entryTable keyValue.key with
  | some entry =>
      let kvOld := keyValueGenerator entry.key entry.size
      { state with
          entryTable := listRemoveByCondition state.entryTable
            fun entry => keyValue.key = entry.key
          entriesLeft := state.entriesLeft + entryTableEntriesNeeded config kvOld }
  | none => state

/-- `entry_table_delete_few`. -/
def entryTableDeleteFew (state : InstanceState) (keys : List CString) : InstanceState :=
  keys.foldl (fun state key => entryTableDelete config state (keyValueGenerator key 0)) state

/-- The first neighbour in the table without the key whose entry begins at or
after the key's own, or else the last one: the `do`-`while` loop of
`entry_table_has_continous_entries`. -/
def followingEntry (current : Entry) : List Entry → Option Entry
  | [] => none
  | [following] => some following
  | following :: next :: rest =>
      if following.number < current.number then followingEntry current (next :: rest)
      else some following

/-- `entry_table_has_continous_entries`. The key is taken out of a copy of the
table, matching it without regard to case, before looking for room. -/
def entryTableHasContinousEntries (state : InstanceState) (keyValue : KeyValue) : Bool :=
  let entriesNeeded := reqEntries config keyValue.size
  if entryTableHasKey state.entryTable keyValue.key false then
    let equals := fun entry : Entry => stringEqualsIgnoreCase keyValue.key entry.key
    let mockEntryTable := listRemoveByCondition state.entryTable equals
    match state.entryTable.find? equals with
    | none => false
    | some currentEntry =>
        match followingEntry currentEntry mockEntryTable with
        | none => true
        | some followingEntry =>
            if followingEntry.number < currentEntry.number ∧
                toSizeT (config.totalEntries - currentEntry.number + entriesNeeded) ≠ 0 then true
            else if toSizeT (currentEntry.number + reqEntries config currentEntry.size +
                entryTableDiffEntries config state.entryTable keyValue) <
                  followingEntry.number then true
            else (searchGap config entriesNeeded mockEntryTable).isSome
  else (searchGap config entriesNeeded state.entryTable).isSome

end SockMyPort.Instancia
