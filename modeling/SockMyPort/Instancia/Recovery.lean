/-
# Recovery

`instance_recover` sets the recovered values one after the other and looks at no result.
Nothing is lost when the values fit together: each of them is placed behind those before
it, without a replacement or a compaction.
-/

import SockMyPort.Instancia.SetAnswer
import SockMyPort.Instancia.FirstFit
import SockMyPort.Instancia.CompactLayout

namespace SockMyPort.Instancia

open SockMyPort.Commons Library

variable {config : Config}

/-! ## Packed tables -/

/-- Behind packed entries the search finds the first place that they leave. -/
theorem searchGap_packFrom {entries : List Entry} {left : ℤ} {needed : ℕ}
    (inv : TableInvariant config (packFrom config 0 entries) left) (hneeded : 0 < needed)
    {number : ℕ}
    (hsearch : searchGap config needed (packFrom config 0 entries) = some number) :
    number = occupied (Entry.slots config) entries := by
  have hbehind : FreeRun config (packFrom config 0 entries)
      (occupied (Entry.slots config) entries) needed := by
    intro entry hmem
    have hend := end_le_of_mem_packFrom hmem
    exact .inr (by omega)
  have hle := TableInvariant.searchGap_le hsearch hneeded hbehind
  apply Nat.le_antisymm hle
  by_contra hlow
  obtain ⟨entry, hmem, hrun⟩ : ∃ entry ∈ packFrom config 0 entries, number ∈ entry.run config :=
    exists_run_of_lt_packed (Nat.zero_le number) (by omega)
  have hapart := (inv.searchGap_sound hsearch).1 entry hmem
  rw [Entry.mem_run] at hrun
  omega

/-- The entries of some values, packed. -/
abbrev packedValues (config : Config) (keyValues : List KeyValue) : List Entry :=
  packFrom config 0 (keyValues.map fun keyValue => convertKeyValueToEntry keyValue 0)

/-- The slots that some values need. -/
abbrev slotsOf (config : Config) (keyValues : List KeyValue) : ℕ :=
  (keyValues.map fun keyValue => reqEntries config keyValue.size).sum

theorem occupied_values (keyValues : List KeyValue) :
    occupied (Entry.slots config)
      (keyValues.map fun keyValue => convertKeyValueToEntry keyValue 0) =
      slotsOf config keyValues := by
  simp only [occupied, List.map_map]
  rfl

theorem slotsOf_append (keyValues : List KeyValue) (keyValue : KeyValue) :
    slotsOf config (keyValues ++ [keyValue]) =
      slotsOf config keyValues + reqEntries config keyValue.size := by
  simp only [slotsOf, List.map_append, List.sum_append, List.map_cons, List.map_nil,
    List.sum_singleton]

theorem mem_keys_packedValues {keyValues : List KeyValue} {entry : Entry}
    (hmem : entry ∈ packedValues config keyValues) :
    entry.key ∈ keyValues.map KeyValue.key := by
  obtain ⟨original, horiginal, hkey, -⟩ := exists_of_mem_packFrom hmem
  obtain ⟨keyValue, hvalue, rfl⟩ := List.mem_map.mp horiginal
  rw [hkey]
  exact List.mem_map_of_mem hvalue

/-- A value goes behind the packed ones. -/
theorem packedValues_append (keyValues : List KeyValue) (keyValue : KeyValue) :
    packedValues config (keyValues ++ [keyValue]) =
      packedValues config keyValues ++
        [convertKeyValueToEntry keyValue (slotsOf config keyValues)] := by
  rw [packedValues, List.map_append, packFrom_append, occupied_values, Nat.zero_add]
  rfl

/-! ## One value after the other -/

variable (config) in
/-- An instance in which some values have been set, without a replacement. -/
structure Recovered (keyValues : List KeyValue) (result : SetResult) : Prop where
  inv : InstanceInvariant config result.state
  table : result.state.entryTable = packedValues config keyValues
  replacedKeys : result.replacedKeys = []
  contents : ∀ keyValue ∈ keyValues,
    contents config result.state keyValue.key = some (bytesOf keyValue.value)

namespace Recovered

variable {keyValues : List KeyValue} {result : SetResult}

/-- One more value is set when it fits. -/
theorem set (h : Recovered config keyValues result) (keyValue : KeyValue)
    (hfresh : keyValue.key ∉ keyValues.map KeyValue.key) (hvalue : keyValue.value ≠ [])
    (hroom : slotsOf config (keyValues ++ [keyValue]) ≤ config.totalEntries) :
    (instanceSet config result.state keyValue result.replacedKeys).status = .ok ∧
      Recovered config (keyValues ++ [keyValue])
        (instanceSet config result.state keyValue result.replacedKeys) := by
  have hsize : 0 < keyValue.size := by
    rw [keyValue.size_eq]
    exact List.length_pos_of_ne_nil hvalue
  rw [slotsOf_append] at hroom
  have hget : entryTableGetEntry result.state.entryTable keyValue.key = none := by
    rw [entryTableGetEntry_eq_none_iff, h.table]
    intro hmem
    obtain ⟨entry, hentry, hkey⟩ := List.mem_map.mp hmem
    exact hfresh (hkey ▸ mem_keys_packedValues hentry)
  have hleft : (reqEntries config keyValue.size : ℤ) ≤ result.state.entriesLeft := by
    rw [h.inv.table.left_eq, h.table, packedValues, occupied_packFrom, occupied_values]
    omega
  have hbehind : FreeRun config result.state.entryTable (slotsOf config keyValues)
      (reqEntries config keyValue.size) := by
    intro entry hmem
    rw [h.table] at hmem
    have hend := end_le_of_mem_packFrom hmem
    rw [occupied_values, Nat.zero_add] at hend
    exact .inr hend
  obtain ⟨nextEntry, hsearch, hset⟩ :=
    h.inv.instanceSet_eq_of_room result.replacedKeys hvalue hget hleft hbehind hroom
  rw [h.table] at hsearch
  have hplace : nextEntry = slotsOf config keyValues := by
    have htable := h.inv.table
    rw [h.table] at htable
    rw [← occupied_values]
    exact searchGap_packFrom htable (reqEntries_pos hsize) hsearch
  obtain ⟨hinv, hcontents, -⟩ := h.inv.instanceSet keyValue result.replacedKeys hvalue
    (by simp [h.replacedKeys]) (by simp [h.replacedKeys])
  have hstatus : (instanceSet config result.state keyValue result.replacedKeys).status = .ok := by
    rw [hset]
  have hreplaced : (instanceSet config result.state keyValue result.replacedKeys).replacedKeys =
      [] := by
    rw [hset, h.replacedKeys]
  refine ⟨hstatus, hinv, ?_, hreplaced, ?_⟩
  · apply eq_of_perm_of_numbers_lt _ hinv.table.numbers_lt
    · rw [packedValues_append]
      refine List.pairwise_append.mpr ⟨h.table ▸ h.inv.table.numbers_lt,
        List.pairwise_singleton _ _, fun entry hmem other hother => ?_⟩
      obtain rfl := List.mem_singleton.mp hother
      have hend := hbehind entry (h.table ▸ hmem)
      have hpos := h.inv.table.slots_pos entry (h.table ▸ hmem)
      have hneeded : 0 < reqEntries config keyValue.size := reqEntries_pos hsize
      have hlast := end_le_of_mem_packFrom hmem
      rw [occupied_values] at hlast
      simp only [convertKeyValueToEntry]
      omega
    · obtain ⟨table, hinsert, hperm, -⟩ := entryTableInsert_eq config
        { result.state with
          storage := writeCells result.state.storage (nextEntry * config.entrySize)
            ((bytesOf keyValue.value).take keyValue.size) } nextEntry keyValue
      rw [hset, hinsert, packedValues_append]
      rw [otherEntries_of_none hget, hplace, h.table] at hperm
      exact hperm.trans (List.perm_append_singleton _ _).symm
  · intro other hmem
    rw [hcontents, hstatus, hreplaced]
    simp only [SetCall.effect, Contents.forget_nil, Function.update_apply]
    rcases List.mem_append.mp hmem with hold | hnew
    · have hne : other.key ≠ keyValue.key := by
        intro hkey
        exact hfresh (hkey ▸ List.mem_map_of_mem hold)
      rw [if_neg hne]
      exact h.contents other hold
    · obtain rfl := List.mem_singleton.mp hnew
      rw [if_pos rfl]

theorem init (mountPoint : CString) (dumper : Dumper) :
    Recovered config []
      { state := { instanceInit config mountPoint with dumper := dumper }
        replacedKeys := []
        status := .ok } where
  inv := (instanceInit_invariant mountPoint).congr rfl rfl rfl rfl
  table := rfl
  replacedKeys := rfl
  contents _ hmem := by cases hmem

end Recovered

/-! ## The result -/

theorem instanceRecover_append (state : InstanceState) (keyValues : List KeyValue)
    (keyValue : KeyValue) :
    instanceRecover config state (keyValues ++ [keyValue]) =
      instanceSet config (instanceRecover config state keyValues).state keyValue
        (instanceRecover config state keyValues).replacedKeys := by
  simp only [instanceRecover, List.foldl_append, List.foldl_cons, List.foldl_nil]

/-- What values are recovered when they fit together, whatever the dumper has read. -/
theorem recovered_instanceRecover {keyValues : List KeyValue} (mountPoint : CString)
    (dumper : Dumper) (hkeys : (keyValues.map KeyValue.key).Nodup)
    (hvalues : ∀ keyValue ∈ keyValues, keyValue.value ≠ [])
    (hroom : slotsOf config keyValues ≤ config.totalEntries) :
    Recovered config keyValues
      (instanceRecover config { instanceInit config mountPoint with dumper := dumper }
        keyValues) := by
  induction keyValues using List.reverseRecOn with
  | nil => exact Recovered.init mountPoint dumper
  | append_singleton keyValues keyValue ih =>
      rw [List.map_append, List.map_singleton] at hkeys
      have hbefore := ih hkeys.of_append_left
        (fun other hmem => hvalues other (List.mem_append_left _ hmem))
        (by rw [slotsOf_append] at hroom; omega)
      rw [instanceRecover_append]
      refine (hbefore.set keyValue ?_ (hvalues keyValue (by simp)) hroom).2
      intro hmem
      exact List.disjoint_of_nodup_append hkeys hmem (List.mem_singleton_self _)

theorem keyValueCreate_self (keyValue : KeyValue) :
    keyValueCreate keyValue.key keyValue.value = keyValue := by
  obtain ⟨key, value, size, rfl, hshort⟩ := keyValue
  simp only [keyValueCreate, List.take_of_length_le hshort]

/-- **Recovery loses nothing that fits**: every value is set at once and without a
replacement, the entries are packed in the order of the values, and every key has its
value. -/
theorem instanceRecover_keeps {keyValues : List KeyValue} (mountPoint : CString)
    (dumper : Dumper) (hkeys : (keyValues.map KeyValue.key).Nodup)
    (hvalues : ∀ keyValue ∈ keyValues, keyValue.value ≠ [])
    (hroom : slotsOf config keyValues ≤ config.totalEntries) :
    let fresh := { instanceInit config mountPoint with dumper := dumper }
    (∀ earlier keyValue later, keyValues = earlier ++ keyValue :: later →
      let reached := instanceRecover config fresh earlier
      (instanceSet config reached.state keyValue reached.replacedKeys).status = .ok ∧
        (instanceSet config reached.state keyValue reached.replacedKeys).replacedKeys = []) ∧
    (instanceRecover config fresh keyValues).state.entryTable =
      packFrom config 0 (keyValues.map fun keyValue => convertKeyValueToEntry keyValue 0) ∧
    ∀ keyValue ∈ keyValues,
      instanceStatus config (instanceRecover config fresh keyValues).state keyValue.key =
        some keyValue := by
  intro fresh
  have hall := recovered_instanceRecover mountPoint dumper hkeys hvalues hroom
  refine ⟨fun earlier keyValue later hsplit => ?_, hall.table, fun keyValue hmem => ?_⟩
  · intro reached
    subst hsplit
    have hbefore : Recovered config earlier reached := by
      apply recovered_instanceRecover mountPoint dumper
      · rw [List.map_append] at hkeys
        exact hkeys.of_append_left
      · exact fun other hmem => hvalues other (List.mem_append_left _ hmem)
      · simp only [slotsOf, List.map_append, List.sum_append] at hroom ⊢
        omega
    have hset := hbefore.set keyValue ?_ (hvalues keyValue (by simp)) ?_
    · exact ⟨hset.1, hset.2.replacedKeys⟩
    · rw [List.map_append, List.map_cons] at hkeys
      intro hmem
      exact List.disjoint_of_nodup_append hkeys hmem List.mem_cons_self
    · rw [slotsOf_append]
      simp only [slotsOf, List.map_append, List.sum_append, List.map_cons, List.sum_cons] at hroom ⊢
      omega
  · rw [instanceStatus_eq_contents, hall.contents keyValue hmem, Option.map_some,
      stringOf_bytesOf_append_zero, keyValueCreate_self]

/-- Two values are recovered in three entries. -/
theorem instanceRecover_keeps_two :
    let keyValues := [keyValueCreate (literal [97]) (literal [120, 120]),
      keyValueCreate (literal [98]) (literal [121])]
    let recovered := instanceRecover threeEntries (instanceInit threeEntries []) keyValues
    recovered.state.entryTable = [⟨0, 2, literal [97]⟩, ⟨2, 1, literal [98]⟩] ∧
      instanceStatus threeEntries recovered.state (literal [98]) =
        some (keyValueCreate (literal [98]) (literal [121])) := by
  intro keyValues recovered
  obtain ⟨-, htable, hstatus⟩ := instanceRecover_keeps [] (dumperInit [])
    (show (keyValues.map KeyValue.key).Nodup by decide) (by decide)
    (show slotsOf threeEntries keyValues ≤ threeEntries.totalEntries by decide)
  exact ⟨htable, hstatus (keyValueCreate (literal [98]) (literal [121])) (by simp [keyValues])⟩

end SockMyPort.Instancia
