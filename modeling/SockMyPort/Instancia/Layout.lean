/-
# The layout of the slots

The invariant of the entry table: entries are ordered by slot, own disjoint runs
inside the storage, have distinct keys, and leave exactly `entries_left` slots
free. Two rules carry every operation of the table: taking an entry out, and
putting in an entry whose run is disjoint from all others.
-/

import SockMyPort.Instancia.EntryTable
import SockMyPort.Library.Slots
import Mathlib.Data.List.Pairwise

namespace SockMyPort.Instancia

open SockMyPort.Commons Library

variable {config : Config}

/-! ## Entries needed -/

/-- A size fits in `count` entries when the entries have that many bytes. -/
theorem reqEntries_le_iff {size count : ℕ} :
    reqEntries config size ≤ count ↔ size ≤ count * config.entrySize := by
  have hpos := config.entrySize_pos
  have hdiv := Nat.div_add_mod size config.entrySize
  have hmod := Nat.mod_lt size hpos
  simp only [reqEntries]
  split
  · rw [← Nat.mul_le_mul_right_iff hpos]
    have : size / config.entrySize * config.entrySize = size := by
      rw [Nat.mul_comm]
      omega
    rw [this]
  · rw [Nat.succ_le_iff, Nat.div_lt_iff_lt_mul hpos]
    constructor
    · exact Nat.le_of_lt
    · intro hle
      refine Nat.lt_of_le_of_ne hle fun heq => ?_
      have : size % config.entrySize = 0 := by rw [heq, Nat.mul_mod_left]
      contradiction

theorem le_reqEntries_mul (config : Config) (size : ℕ) :
    size ≤ reqEntries config size * config.entrySize :=
  reqEntries_le_iff.mp le_rfl

theorem reqEntries_pos {size : ℕ} (hsize : 0 < size) : 0 < reqEntries config size := by
  by_contra hzero
  have : size ≤ 0 * config.entrySize := reqEntries_le_iff.mp (Nat.le_of_not_lt hzero)
  omega

theorem reqEntries_mono (config : Config) {first second : ℕ} (hle : first ≤ second) :
    reqEntries config first ≤ reqEntries config second :=
  reqEntries_le_iff.mpr (hle.trans (le_reqEntries_mul _ second))

@[simp]
theorem entryTableEntriesNeeded_eq (keyValue : KeyValue) :
    entryTableEntriesNeeded config keyValue = reqEntries config keyValue.size := rfl

/-- A filler value of so many entries needs so many. -/
theorem entriesNeeded_filler (config : Config) (key : CString) (count : ℕ) :
    entryTableEntriesNeeded config (keyValueGenerator key (count * config.entrySize)) = count := by
  simp only [entryTableEntriesNeeded, keyValueGenerator_size, Nat.mul_mod_left, if_true]
  exact Nat.mul_div_cancel count config.entrySize_pos

variable (config) in
/-- The number of slots that an entry owns. -/
abbrev Entry.slots (entry : Entry) : ℕ := reqEntries config entry.size

/-! ## Looking up keys -/

theorem entryTableGetEntry_eq_none_iff {table : List Entry} {key : CString} :
    entryTableGetEntry table key = none ↔ key ∉ table.map Entry.key := by
  simp only [entryTableGetEntry, List.find?_eq_none, decide_eq_true_eq, List.mem_map, not_exists,
    not_and]
  exact ⟨fun h entry hmem heq => h entry hmem heq.symm,
    fun h entry hmem heq => h entry hmem heq.symm⟩

theorem key_of_getEntry {table : List Entry} {key : CString} {entry : Entry}
    (h : entryTableGetEntry table key = some entry) : entry.key = key := by
  have := List.find?_some h
  simpa [eq_comm] using this

theorem mem_of_getEntry {table : List Entry} {key : CString} {entry : Entry}
    (h : entryTableGetEntry table key = some entry) : entry ∈ table :=
  List.mem_of_find?_eq_some h

theorem hasKey_eq_isSome (table : List Entry) (key : CString) :
    entryTableHasKey table key false = (entryTableGetEntry table key).isSome := by
  rw [entryTableGetEntry, List.isSome_find?]
  rfl

/-- The entry of a key splits the table, and every operation on the key acts at
that place. -/
theorem exists_split_of_getEntry {table : List Entry} {key : CString} {entry : Entry}
    (h : entryTableGetEntry table key = some entry) :
    ∃ before after, table = before ++ entry :: after ∧
      (∀ update, updateEntry key update table = before ++ update entry :: after) ∧
      listRemoveByCondition table (fun entry => key = entry.key) = before ++ after := by
  induction table with
  | nil => simp [entryTableGetEntry] at h
  | cons first table ih =>
      by_cases hkey : key = first.key
      · have heq : first = entry := by simpa [entryTableGetEntry, hkey] using h
        subst heq
        exact ⟨[], table, rfl, fun update => by simp [updateEntry, hkey],
          by simp [listRemoveByCondition, hkey]⟩
      · have hrest : entryTableGetEntry table key = some entry := by
          simpa [entryTableGetEntry, hkey] using h
        obtain ⟨before, after, rfl, hupdate, hremove⟩ := ih hrest
        refine ⟨first :: before, after, rfl, fun update => ?_, ?_⟩
        · simp [updateEntry, hkey, hupdate]
        · simp only [listRemoveByCondition] at hremove ⊢
          simp [hkey, hremove]

/-! ## The invariant -/

variable (config) in
/-- The invariant of the entry table and its counter of free entries. -/
structure TableInvariant (table : List Entry) (left : ℤ) : Prop where
  separated : Separated Entry.number (Entry.slots config) table
  keysDistinct : (table.map Entry.key).Nodup
  inside : ∀ entry ∈ table, entry.number + entry.slots config ≤ config.totalEntries
  nonempty : ∀ entry ∈ table, 0 < entry.size
  keyShort : ∀ entry ∈ table, entry.key.length ≤ 40
  left_eq : left = config.totalEntries - occupied (Entry.slots config) table

namespace TableInvariant

variable {table : List Entry} {left : ℤ}

theorem slots_pos (inv : TableInvariant config table left) :
    ∀ entry ∈ table, 0 < entry.slots config :=
  fun entry hmem => reqEntries_pos (inv.nonempty entry hmem)

/-- The table is strictly ordered by first slot. -/
theorem numbers_lt (inv : TableInvariant config table left) :
    table.Pairwise fun first second => first.number < second.number := by
  refine List.Pairwise.imp_of_mem (fun {first second} hfirst _ h => ?_) inv.separated
  have := inv.slots_pos first hfirst
  omega

theorem empty : TableInvariant config [] config.totalEntries where
  separated := .nil
  keysDistinct := .nil
  inside := by simp
  nonempty := by simp
  keyShort := by simp
  left_eq := by simp

theorem occupied_le (inv : TableInvariant config table left) :
    occupied (Entry.slots config) table ≤ config.totalEntries := by
  have := inv.separated.occupied_le (Nat.zero_le config.totalEntries) (fun _ _ => Nat.zero_le _)
    inv.inside
  omega

/-- There are no more entries than slots. -/
theorem length_le (inv : TableInvariant config table left) :
    table.length ≤ config.totalEntries := by
  have hslots := List.length_le_sum_of_one_le (table.map (Entry.slots config)) fun slots hmem => by
    obtain ⟨entry, hentry, rfl⟩ := List.mem_map.mp hmem
    exact inv.slots_pos entry hentry
  rw [List.length_map] at hslots
  exact hslots.trans inv.occupied_le

theorem left_nonneg (inv : TableInvariant config table left) : 0 ≤ left := by
  have := inv.occupied_le
  have := inv.left_eq
  omega

theorem left_le (inv : TableInvariant config table left) : left ≤ config.totalEntries := by
  have := inv.left_eq
  omega

/-- Different entries own disjoint runs. -/
theorem apart_of_mem (inv : TableInvariant config table left) {first second : Entry}
    (hfirst : first ∈ table) (hsecond : second ∈ table) (hne : first ≠ second) :
    Apart Entry.number (Entry.slots config) first second :=
  inv.separated.apart.forall hfirst hsecond hne

/-- The table without one of its entries. -/
theorem delete {before after : List Entry} {entry : Entry}
    (inv : TableInvariant config (before ++ entry :: after) left) :
    TableInvariant config (before ++ after) (left + entry.slots config) := by
  have hsub : (before ++ after).Sublist (before ++ entry :: after) :=
    List.Sublist.append_left (List.sublist_cons_self entry after) before
  refine ⟨inv.separated.sublist hsub, inv.keysDistinct.sublist (hsub.map _),
    fun other hmem => inv.inside other (hsub.subset hmem),
    fun other hmem => inv.nonempty other (hsub.subset hmem),
    fun other hmem => inv.keyShort other (hsub.subset hmem), ?_⟩
  have := inv.left_eq
  simp only [occupied_append, occupied_cons] at this ⊢
  omega

/-- The entries other than a given one do not have its key. -/
theorem key_not_mem_of_split {before after : List Entry} {entry : Entry}
    (inv : TableInvariant config (before ++ entry :: after) left) :
    entry.key ∉ (before ++ after).map Entry.key := by
  have hnodup := inv.keysDistinct
  simp only [List.map_append, List.map_cons] at hnodup ⊢
  exact (List.nodup_middle.mp hnodup).notMem

/-- The table with an entry of a fresh key whose run is free. -/
theorem insert {result : List Entry} {entry : Entry}
    (inv : TableInvariant config table left) (hperm : result.Perm (entry :: table))
    (hsorted : result.Pairwise fun first second => first.number ≤ second.number)
    (hfresh : entry.key ∉ table.map Entry.key)
    (hapart : ∀ other ∈ table, Apart Entry.number (Entry.slots config) entry other)
    (hinside : entry.number + entry.slots config ≤ config.totalEntries)
    (hsize : 0 < entry.size) (hshort : entry.key.length ≤ 40) :
    TableInvariant config result (left - entry.slots config) := by
  have hmem : ∀ other ∈ result, other = entry ∨ other ∈ table := fun other h =>
    List.mem_cons.mp (hperm.mem_iff.mp h)
  have hnonempty : ∀ other ∈ result, 0 < other.size := fun other h =>
    (hmem other h).elim (fun heq => heq ▸ hsize) (inv.nonempty other)
  refine ⟨?_, ?_, ?_, hnonempty, ?_, ?_⟩
  · exact separated_of_sorted hsorted
      (pairwise_apart_of_perm_cons hperm inv.separated.apart hapart)
      fun other h => reqEntries_pos (hnonempty other h)
  · exact (hperm.map Entry.key).nodup_iff.mpr (List.nodup_cons.mpr ⟨hfresh, inv.keysDistinct⟩)
  · exact fun other h => (hmem other h).elim (fun heq => heq ▸ hinside) (inv.inside other)
  · exact fun other h => (hmem other h).elim (fun heq => heq ▸ hshort) (inv.keyShort other)
  · have := inv.left_eq
    rw [occupied_perm hperm, occupied_cons]
    omega

end TableInvariant

/-- `list_sort` orders the table by first slot. -/
theorem listSort_ascending_pairwise (table : List Entry) :
    (config.sort.listSort ascending table).Pairwise
      fun first second => first.number ≤ second.number := by
  have h := config.sort.pairwise ascending table
    (fun a b => by
      simp only [ascending, Bool.or_eq_true, Bool.not_eq_true', decide_eq_false_iff_not]
      omega)
    (fun a b c => by simp only [ascending, Bool.not_eq_true', decide_eq_false_iff_not]; omega)
  refine h.imp fun {first second} hle => ?_
  simpa [ascending] using hle

/-! ## Taking an entry out -/

/-- The table without the entry of a key. -/
abbrev otherEntries (table : List Entry) (key : CString) : List Entry :=
  listRemoveByCondition table fun entry => key = entry.key

theorem mem_otherEntries_subset {table : List Entry} {key : CString} {entry : Entry}
    (hmem : entry ∈ otherEntries table key) : entry ∈ table :=
  List.eraseP_subset hmem

/-- What `entry_table_delete` does to a table that has the key. -/
theorem entryTableDelete_of_some {state : InstanceState} {keyValue : KeyValue} {entry : Entry}
    (hget : entryTableGetEntry state.entryTable keyValue.key = some entry) :
    entryTableDelete config state keyValue =
      { state with
        entryTable := otherEntries state.entryTable keyValue.key
        entriesLeft := state.entriesLeft + entry.slots config } := by
  simp only [entryTableDelete, hget, entryTableEntriesNeeded_eq, keyValueGenerator_size]

theorem entryTableDelete_of_none {state : InstanceState} {keyValue : KeyValue}
    (hget : entryTableGetEntry state.entryTable keyValue.key = none) :
    entryTableDelete config state keyValue = state := by
  simp only [entryTableDelete, hget]

theorem otherEntries_of_none {table : List Entry} {key : CString}
    (hget : entryTableGetEntry table key = none) : otherEntries table key = table := by
  refine List.eraseP_of_forall_not fun entry hmem => ?_
  have := List.find?_eq_none.mp hget entry hmem
  simpa using this

@[simp]
theorem entryTable_entryTableDelete (state : InstanceState) (keyValue : KeyValue) :
    (entryTableDelete config state keyValue).entryTable =
      otherEntries state.entryTable keyValue.key := by
  cases hget : entryTableGetEntry state.entryTable keyValue.key with
  | none => rw [entryTableDelete_of_none hget, otherEntries_of_none hget]
  | some entry => rw [entryTableDelete_of_some hget]

/-- Deleting a key touches the table and its counter only. -/
theorem entryTableDelete_frame (config : Config) (state : InstanceState) (keyValue : KeyValue) :
    ∃ left, entryTableDelete config state keyValue =
      { state with
        entryTable := otherEntries state.entryTable keyValue.key
        entriesLeft := left } := by
  cases hget : entryTableGetEntry state.entryTable keyValue.key with
  | none =>
      refine ⟨state.entriesLeft, ?_⟩
      rw [entryTableDelete_of_none hget, otherEntries_of_none hget]
  | some entry => exact ⟨_, entryTableDelete_of_some hget⟩

namespace TableInvariant

variable {table : List Entry} {left : ℤ}

/-- Deleting a key keeps the invariant, whether or not the table has it. -/
theorem entryTableDelete {state : InstanceState}
    (inv : TableInvariant config state.entryTable state.entriesLeft) (keyValue : KeyValue) :
    TableInvariant config (entryTableDelete config state keyValue).entryTable
      (entryTableDelete config state keyValue).entriesLeft := by
  cases hget : entryTableGetEntry state.entryTable keyValue.key with
  | none => rwa [entryTableDelete_of_none hget]
  | some entry =>
      obtain ⟨before, after, hsplit, -, hremove⟩ := exists_split_of_getEntry hget
      rw [entryTableDelete_of_some hget, otherEntries, hremove]
      rw [hsplit] at inv
      exact inv.delete

/-- With distinct keys, looking up a key is membership. -/
theorem getEntry_eq_some_iff (inv : TableInvariant config table left) (key : CString)
    (entry : Entry) :
    entryTableGetEntry table key = some entry ↔ entry ∈ table ∧ entry.key = key := by
  constructor
  · exact fun h => ⟨mem_of_getEntry h, key_of_getEntry h⟩
  · rintro ⟨hmem, rfl⟩
    cases hget : entryTableGetEntry table entry.key with
    | none =>
        rw [entryTableGetEntry_eq_none_iff] at hget
        exact absurd (List.mem_map_of_mem hmem) hget
    | some found =>
        rw [List.inj_on_of_nodup_map inv.keysDistinct (mem_of_getEntry hget) hmem
          (key_of_getEntry hget)]

/-- The other entries are those of other keys. -/
theorem mem_otherEntries_iff (inv : TableInvariant config table left) {key : CString}
    {entry : Entry} : entry ∈ otherEntries table key ↔ entry ∈ table ∧ entry.key ≠ key := by
  cases hget : entryTableGetEntry table key with
  | none =>
      rw [otherEntries_of_none hget]
      refine ⟨fun hmem => ⟨hmem, ?_⟩, And.left⟩
      rintro rfl
      exact entryTableGetEntry_eq_none_iff.mp hget (List.mem_map_of_mem hmem)
  | some found =>
      obtain ⟨before, after, rfl, -, hremove⟩ := exists_split_of_getEntry hget
      obtain rfl := key_of_getEntry hget
      rw [otherEntries, hremove]
      constructor
      · intro hmem
        refine ⟨?_, ?_⟩
        · simp only [List.mem_append, List.mem_cons] at hmem ⊢
          tauto
        · intro hkey
          exact inv.key_not_mem_of_split (hkey ▸ List.mem_map_of_mem hmem)
      · rintro ⟨hmem, hkey⟩
        simp only [List.mem_append, List.mem_cons] at hmem ⊢
        rcases hmem with hmem | rfl | hmem
        · exact .inl hmem
        · exact absurd rfl hkey
        · exact .inr hmem

theorem otherEntries_of_split {before after : List Entry} {entry : Entry}
    (inv : TableInvariant config table left) (htable : table = before ++ entry :: after) :
    otherEntries table entry.key = before ++ after := by
  subst htable
  rw [otherEntries, listRemoveByCondition, List.eraseP_append_right _ fun other hother => ?_,
    List.eraseP_cons_of_pos (by simp)]
  simp only [decide_eq_true_eq]
  intro hkey
  exact inv.key_not_mem_of_split (hkey ▸ List.mem_map_of_mem (List.mem_append_left _ hother))

/-- The counter after a deletion counts the slots of the key as free. -/
theorem entriesLeft_entryTableDelete {state : InstanceState} (keyValue : KeyValue) :
    (SockMyPort.Instancia.entryTableDelete config state keyValue).entriesLeft =
      state.entriesLeft +
        ((entryTableGetEntry state.entryTable keyValue.key).elim 0
          fun entry => (entry.slots config : ℤ)) := by
  cases hget : entryTableGetEntry state.entryTable keyValue.key with
  | none => simp [entryTableDelete_of_none hget]
  | some entry => simp [entryTableDelete_of_some hget]

end TableInvariant

end SockMyPort.Instancia
