/-
# Putting a value in its place

The contents of an instance are the bytes that its table and its storage
together assign to each key. This module says what each operation does to the
contents: a deletion forgets one key, and a write followed by an insertion
changes one key and leaves the bytes of all others alone.
-/

import SockMyPort.Instancia.Search
import SockMyPort.Instancia.Storage
import SockMyPort.Instancia.StatusTable
import Mathlib.Logic.Function.Basic

namespace SockMyPort.Instancia

open SockMyPort.Commons Library

variable {config : Config}

/-! ## Inserting -/

/-- Inserting replaces the entry of the key, or adds one, and charges the
difference to the counter. -/
theorem entryTableInsert_eq (config : Config) (state : InstanceState) (nextEntry : ℕ)
    (keyValue : KeyValue) :
    ∃ table, entryTableInsert config state nextEntry keyValue =
        { state with
          entryTable := table
          entriesLeft := (entryTableDelete config state keyValue).entriesLeft -
            reqEntries config keyValue.size } ∧
      table.Perm (convertKeyValueToEntry keyValue nextEntry ::
        otherEntries state.entryTable keyValue.key) ∧
      (state.entryTable.Pairwise (fun first second => first.number < second.number) →
        table.Pairwise fun first second => first.number ≤ second.number) := by
  cases hget : entryTableGetEntry state.entryTable keyValue.key with
  | none =>
      refine ⟨config.sort.listSort ascending
        (state.entryTable ++ [convertKeyValueToEntry keyValue nextEntry]), ?_, ?_, fun _ =>
          listSort_ascending_pairwise _⟩
      · simp only [entryTableInsert, hget, entryTableDelete_of_none hget,
          entryTableEntriesNeeded_eq]
      · rw [otherEntries_of_none hget]
        exact (config.sort.perm _ _).trans (List.perm_append_singleton _ _)
  | some entry =>
      obtain ⟨before, after, hsplit, hupdate, hremove⟩ := exists_split_of_getEntry hget
      have hkey := key_of_getEntry hget
      have hperm : (before ++ convertKeyValueToEntry keyValue nextEntry :: after).Perm
          (convertKeyValueToEntry keyValue nextEntry ::
            otherEntries state.entryTable keyValue.key) := by
        rw [otherEntries, hremove]
        exact List.perm_middle
      by_cases hplace : nextEntry = entry.number
      · refine ⟨before ++ convertKeyValueToEntry keyValue nextEntry :: after, ?_, hperm, ?_⟩
        · simp only [entryTableInsert, hget, entryTableDelete_of_some hget, hplace, if_true,
            entryTableEntriesNeeded_eq, keyValueGenerator_size, convertKeyValueToEntry, hupdate,
            hkey]
        · intro hsorted
          rw [hsplit] at hsorted
          have hmap : (before ++ convertKeyValueToEntry keyValue nextEntry :: after).map
              Entry.number = (before ++ entry :: after).map Entry.number := by
            simp [convertKeyValueToEntry, hplace]
          rw [← List.pairwise_map (R := fun first second => first ≤ second), hmap,
            List.pairwise_map]
          exact hsorted.imp fun h => Nat.le_of_lt h
      · refine ⟨config.sort.listSort ascending
          (before ++ convertKeyValueToEntry keyValue nextEntry :: after), ?_,
            (config.sort.perm _ _).trans hperm, fun _ => listSort_ascending_pairwise _⟩
        simp only [entryTableInsert, hget, entryTableDelete_of_some hget, hplace, if_false,
          entryTableEntriesNeeded_eq, keyValueGenerator_size, convertKeyValueToEntry, hupdate,
          hkey]

namespace TableInvariant

variable {state : InstanceState}

/-- Inserting a value over a run that meets no other key keeps the invariant. -/
theorem entryTableInsert (inv : TableInvariant config state.entryTable state.entriesLeft)
    {keyValue : KeyValue} {nextEntry : ℕ}
    (hfree : FreeRun config (otherEntries state.entryTable keyValue.key) nextEntry
      (reqEntries config keyValue.size))
    (hinside : nextEntry + reqEntries config keyValue.size ≤ config.totalEntries)
    (hsize : 0 < keyValue.size) :
    TableInvariant config (entryTableInsert config state nextEntry keyValue).entryTable
      (entryTableInsert config state nextEntry keyValue).entriesLeft := by
  obtain ⟨table, heq, hperm, hsorted⟩ := entryTableInsert_eq config state nextEntry
    keyValue
  have hdeleted := inv.entryTableDelete keyValue
  rw [entryTable_entryTableDelete] at hdeleted
  rw [heq]
  refine hdeleted.insert hperm (hsorted inv.numbers_lt) ?_ hfree hinside hsize keyValue.key_short
  intro hmem
  obtain ⟨other, hother, hkey⟩ := List.mem_map.mp hmem
  exact (inv.mem_otherEntries_iff.mp hother).2 hkey

/-- After an insertion the key is found at its place, and every other key where
it was. -/
theorem getEntry_entryTableInsert
    (inv : TableInvariant config state.entryTable state.entriesLeft)
    {keyValue : KeyValue} {nextEntry : ℕ}
    (hfree : FreeRun config (otherEntries state.entryTable keyValue.key) nextEntry
      (reqEntries config keyValue.size))
    (hinside : nextEntry + reqEntries config keyValue.size ≤ config.totalEntries)
    (hsize : 0 < keyValue.size) (key : CString) :
    entryTableGetEntry
        (SockMyPort.Instancia.entryTableInsert config state nextEntry keyValue).entryTable key =
      if key = keyValue.key then some (convertKeyValueToEntry keyValue nextEntry)
      else entryTableGetEntry state.entryTable key := by
  have hinserted := inv.entryTableInsert hfree hinside hsize
  obtain ⟨table, heq, hperm, -⟩ := entryTableInsert_eq config state nextEntry keyValue
  rw [heq] at hinserted ⊢
  refine Option.ext fun entry => ?_
  rw [hinserted.getEntry_eq_some_iff, hperm.mem_iff, List.mem_cons, inv.mem_otherEntries_iff]
  split
  · rename_i hkey
    rw [Option.some.injEq]
    constructor
    · rintro ⟨rfl | ⟨-, hne⟩, hentry⟩
      · rfl
      · exact absurd (hentry.trans hkey) hne
    · rintro rfl
      exact ⟨.inl rfl, hkey.symm⟩
  · rename_i hkey
    rw [inv.getEntry_eq_some_iff]
    constructor
    · rintro ⟨rfl | ⟨hmem, -⟩, hentry⟩
      · exact absurd hentry.symm hkey
      · exact ⟨hmem, hentry⟩
    · rintro ⟨hmem, hentry⟩
      exact ⟨.inr ⟨hmem, fun h => hkey (hentry.symm.trans h)⟩, hentry⟩

/-- After a deletion the key is gone, and every other key where it was. -/
theorem getEntry_otherEntries (inv : TableInvariant config state.entryTable state.entriesLeft)
    (removed key : CString) :
    entryTableGetEntry (otherEntries state.entryTable removed) key =
      if key = removed then none else entryTableGetEntry state.entryTable key := by
  split
  · rename_i hkey
    rw [entryTableGetEntry_eq_none_iff]
    intro hmem
    obtain ⟨entry, hentry, hname⟩ := List.mem_map.mp hmem
    exact (inv.mem_otherEntries_iff.mp hentry).2 (hname.trans hkey)
  · rename_i hkey
    have hdeleted := inv.entryTableDelete (keyValueGenerator removed 0)
    rw [entryTable_entryTableDelete] at hdeleted
    refine Option.ext fun entry => ?_
    rw [inv.getEntry_eq_some_iff]
    constructor
    · exact fun h => ⟨mem_otherEntries_subset (mem_of_getEntry h), key_of_getEntry h⟩
    · rintro ⟨hmem, rfl⟩
      have hother : entry ∈ otherEntries state.entryTable removed :=
        inv.mem_otherEntries_iff.mpr ⟨hmem, hkey⟩
      cases hget : entryTableGetEntry (otherEntries state.entryTable removed) entry.key with
      | none =>
          rw [entryTableGetEntry_eq_none_iff] at hget
          exact absurd (List.mem_map_of_mem hother) hget
      | some found =>
          rw [List.inj_on_of_nodup_map inv.keysDistinct
            (mem_otherEntries_subset (mem_of_getEntry hget)) hmem (key_of_getEntry hget)]

end TableInvariant

/-! ## The contents -/

/-- What an instance is for: a map from keys to bytes. -/
abbrev Contents := CString → Option (List UInt8)

variable (config) in
/-- The contents that the table and the storage of an instance represent. -/
def contents (state : InstanceState) : Contents := fun key =>
  (entryTableGetEntry state.entryTable key).map fun entry =>
    storageRetrieve config state entry.number entry.size

/-- The contents depend on the table and the storage only. -/
theorem contents_congr {state other : InstanceState} (htable : state.entryTable = other.entryTable)
    (hstorage : state.storage = other.storage) : contents config state = contents config other := by
  funext key
  simp only [contents, storageRetrieve, htable, hstorage]

variable (config) in
/-- The invariant of an instance: its entry table is well laid out, its storage
has the size that it was allocated with, and its status table is well formed. -/
structure InstanceInvariant (state : InstanceState) : Prop where
  table : TableInvariant config state.entryTable state.entriesLeft
  storage_length : state.storage.length = config.totalEntries * config.entrySize
  statuses : StatusTableWellFormed config state.entryTableStatusGlobal

/-- The bounds test of `storage_set` keeps the run inside the storage. -/
theorem inside_of_storageSet {state stored : InstanceState} {nextEntry size : ℕ}
    {value : List UInt8}
    (hset : storageSet config state nextEntry value size = some stored) :
    nextEntry + reqEntries config size ≤ config.totalEntries := by
  have hpos := config.entrySize_pos
  simp only [storageSet] at hset
  split at hset
  · cases hset
  · rename_i hroom
    have hnext : nextEntry ≤ config.totalEntries := by
      by_contra hbeyond
      have := Nat.mul_lt_mul_of_pos_right (Nat.lt_of_not_le hbeyond) hpos
      omega
    have hfits : reqEntries config size ≤ config.totalEntries - nextEntry := by
      rw [reqEntries_le_iff, Nat.sub_mul]
      omega
    omega

/-- Disjoint runs of slots hold disjoint ranges of bytes. -/
theorem bytes_disjoint (config : Config) {entry : Entry} {number size : ℕ}
    (hfree : number + reqEntries config size ≤ entry.number ∨
      entry.number + entry.slots config ≤ number) :
    entry.number * config.entrySize + entry.size ≤ number * config.entrySize ∨
      number * config.entrySize + size ≤ entry.number * config.entrySize := by
  have hsize := le_reqEntries_mul config size
  have hentry := le_reqEntries_mul config entry.size
  rcases hfree with hbefore | hafter
  · have := Nat.mul_le_mul_right config.entrySize hbefore
    rw [Nat.add_mul] at this
    omega
  · have := Nat.mul_le_mul_right config.entrySize hafter
    rw [Nat.add_mul] at this
    simp only [Entry.slots] at this
    omega

namespace InstanceInvariant

variable {state : InstanceState}

/-- The bytes of a stored entry lie inside the storage. -/
theorem bytes_inside (inv : InstanceInvariant config state) {entry : Entry}
    (hmem : entry ∈ state.entryTable) :
    entry.number * config.entrySize + entry.size ≤ state.storage.length := by
  have hinside := inv.table.inside entry hmem
  have hsize := le_reqEntries_mul config entry.size
  calc entry.number * config.entrySize + entry.size
      ≤ entry.number * config.entrySize + entry.slots config * config.entrySize := by
        simp only [Entry.slots]
        omega
    _ = (entry.number + entry.slots config) * config.entrySize := (Nat.add_mul _ _ _).symm
    _ ≤ config.totalEntries * config.entrySize := Nat.mul_le_mul_right _ hinside
    _ = state.storage.length := inv.storage_length.symm

/-- The contents without one key. -/
theorem contents_otherEntries (inv : InstanceInvariant config state) (key : CString) (left : ℤ) :
    contents config
        { state with entryTable := otherEntries state.entryTable key, entriesLeft := left } =
      Function.update (contents config state) key none := by
  funext other
  simp only [contents, inv.table.getEntry_otherEntries, Function.update_apply, storageRetrieve]
  split <;> rfl

/-- Writing a value over a run that meets no other key, and then inserting it,
keeps the invariant and changes the contents of that key only. -/
theorem place (inv : InstanceInvariant config state) (keyValue : KeyValue)
    (statuses : List Status) {nextEntry : ℕ} {value : List UInt8} {stored : InstanceState}
    (hlength : value.length = keyValue.size) (hsize : 0 < keyValue.size)
    (hfree : FreeRun config (otherEntries state.entryTable keyValue.key) nextEntry
      (reqEntries config keyValue.size))
    (hset : storageSet config state nextEntry value keyValue.size = some stored)
    (hstatuses : StatusTableWellFormed config statuses) :
    InstanceInvariant config
        { entryTableInsert config stored nextEntry keyValue with
          entryTableStatusGlobal := statuses } ∧
      contents config
          { entryTableInsert config stored nextEntry keyValue with
            entryTableStatusGlobal := statuses } =
        Function.update (contents config state) keyValue.key (some value) := by
  have hinside := inside_of_storageSet hset
  simp only [storageSet] at hset
  split at hset
  · cases hset
  · rename_i hroom
    obtain rfl := Option.some.inj hset
    have htake : value.take keyValue.size = value := List.take_of_length_le hlength.le
    rw [htake]
    have hbytes : nextEntry * config.entrySize + value.length ≤ state.storage.length := by
      rw [hlength, inv.storage_length]
      omega
    obtain ⟨table, heq, hperm, -⟩ := entryTableInsert_eq config
      { state with storage := writeCells state.storage (nextEntry * config.entrySize) value }
      nextEntry keyValue
    have hwritten : TableInvariant config
        { state with
          storage := writeCells state.storage (nextEntry * config.entrySize) value }.entryTable
        { state with
          storage := writeCells state.storage (nextEntry * config.entrySize) value }.entriesLeft :=
      inv.table
    have htable := hwritten.entryTableInsert hfree hinside hsize
    have hlookup := hwritten.getEntry_entryTableInsert hfree hinside hsize
    rw [heq] at htable hlookup ⊢
    refine ⟨⟨htable, (length_writeCells hbytes).trans inv.storage_length, hstatuses⟩, ?_⟩
    funext key
    simp only [contents, hlookup, Function.update_apply, storageRetrieve]
    split
    · rename_i hkey
      simp only [Option.map_some, convertKeyValueToEntry]
      rw [← hlength, readCells_writeCells_same hbytes]
    · rename_i hkey
      cases hget : entryTableGetEntry state.entryTable key with
      | none => rfl
      | some entry =>
          have hmem : entry ∈ otherEntries state.entryTable keyValue.key :=
            inv.table.mem_otherEntries_iff.mpr
              ⟨mem_of_getEntry hget, fun h => hkey ((key_of_getEntry hget).symm.trans h)⟩
          have hdisjoint := bytes_disjoint config (hfree entry hmem)
          rw [← hlength] at hdisjoint
          simp only [Option.map_some]
          rw [readCells_writeCells_of_disjoint hbytes hdisjoint]

end InstanceInvariant

end SockMyPort.Instancia
