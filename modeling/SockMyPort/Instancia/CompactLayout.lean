/-
# What a compaction leaves behind

The entries stand in their order from the first slot on, with their bytes, and all free
slots are behind them. Every turn copies a value to the left of its place, which may
overlap it but no value that a later turn moves.
-/

import SockMyPort.Instancia.Packing
import SockMyPort.Instancia.Coherence

namespace SockMyPort.Instancia

open SockMyPort.Commons Library

variable {config : Config}

/-! ## The property -/

variable (config) in
/-- The entries of the second state are those of the first one, in their order and with
their bytes, in contiguous runs from the first slot on. -/
structure Compacted (before after : InstanceState) : Prop where
  entries : List.Forall₂ (fun entry moved => moved.key = entry.key ∧ moved.size = entry.size ∧
    storageRetrieve config after moved.number moved.size =
      storageRetrieve config before entry.number entry.size) before.entryTable after.entryTable
  /-- An entry begins where those before it end. -/
  contiguous : ∀ earlier moved later, after.entryTable = earlier ++ moved :: later →
    moved.number = occupied (Entry.slots config) earlier
  /-- The free slots are the last ones, as many as are left. -/
  free : ∀ i, i < config.totalEntries →
    ((∀ entry ∈ after.entryTable, i ∉ entry.run config) ↔
      config.totalEntries - after.entriesLeft ≤ i)
  left : after.entriesLeft = before.entriesLeft

/-! ## Packed entries -/

theorem number_of_packFrom {start : ℕ} {entries earlier later : List Entry} {moved : Entry}
    (hsplit : packFrom config start entries = earlier ++ moved :: later) :
    moved.number = start + occupied (Entry.slots config) earlier := by
  induction entries generalizing start earlier with
  | nil => cases earlier <;> cases hsplit
  | cons entry entries ih =>
      cases earlier with
      | nil =>
          obtain ⟨rfl, -⟩ := List.cons.inj hsplit
          rfl
      | cons first earlier =>
          obtain ⟨rfl, hrest⟩ := List.cons.inj hsplit
          rw [ih hrest, occupied_cons]
          simp only [Entry.slots]
          omega

/-- The packed entries leave no slot free between them. -/
theorem exists_run_of_lt_packed {start i : ℕ} {entries : List Entry} (hlow : start ≤ i)
    (hhigh : i < start + occupied (Entry.slots config) entries) :
    ∃ entry ∈ packFrom config start entries, i ∈ entry.run config := by
  induction entries generalizing start with
  | nil =>
      rw [occupied_nil] at hhigh
      omega
  | cons entry entries ih =>
      rw [occupied_cons] at hhigh
      by_cases hhere : i < start + entry.slots config
      · exact ⟨_, List.mem_cons_self, Entry.mem_run.mpr ⟨hlow, hhere⟩⟩
      · obtain ⟨other, hother, hrun⟩ :
            ∃ other ∈ packFrom config (start + entry.slots config) entries,
              i ∈ other.run config := ih (by omega) (by omega)
        exact ⟨other, List.mem_cons_of_mem _ hother, hrun⟩

/-- Packing what is packed changes nothing. -/
theorem packFrom_packFrom (start : ℕ) (entries : List Entry) :
    packFrom config start (packFrom config start entries) = packFrom config start entries := by
  induction entries generalizing start with
  | nil => rfl
  | cons entry entries ih =>
      simp only [packFrom]
      rw [ih]

theorem forall₂_packFrom (start : ℕ) (entries : List Entry) :
    List.Forall₂ (fun entry moved => moved.key = entry.key ∧ moved.size = entry.size)
      entries (packFrom config start entries) := by
  induction entries generalizing start with
  | nil => exact .nil
  | cons entry entries ih => exact .cons ⟨rfl, rfl⟩ (ih _)

/-! ## The result -/

namespace InstanceInvariant

variable {state : InstanceState}

/-- With the same contents, entries of one key hold the same bytes. -/
theorem retrieve_eq_of_contents {other : InstanceState} (inv : InstanceInvariant config state)
    (hother : InstanceInvariant config other)
    (hcontents : contents config state = contents config other)
    {entry found : Entry} (hfound : found ∈ other.entryTable) (hentry : entry ∈ state.entryTable)
    (hkey : entry.key = found.key) :
    storageRetrieve config state entry.number entry.size =
      storageRetrieve config other found.number found.size := by
  have hget : entryTableGetEntry state.entryTable found.key = some entry :=
    hkey ▸ inv.getEntry_of_mem hentry
  have hboth := congrFun hcontents found.key
  simp only [contents, hget, hother.getEntry_of_mem hfound, Option.map_some] at hboth
  exact Option.some.inj hboth

/-- **Compaction** keeps the entries, their order and their bytes, packs them at the
beginning of the storage, and changes no layout that it has left behind. -/
theorem compacted (inv : InstanceInvariant config state) :
    Compacted config state (Instancia.compactationCompact config state) ∧
      (Instancia.compactationCompact config
          (Instancia.compactationCompact config state)).entryTable =
        (Instancia.compactationCompact config state).entryTable := by
  obtain ⟨hinv, hcontents, hleft⟩ := inv.compactationCompact
  have htable := inv.compactationCompact_packed
  refine ⟨⟨?_, ?_, ?_, hleft⟩, ?_⟩
  · have hsame : List.Forall₂ (fun entry moved => moved.key = entry.key ∧ moved.size = entry.size)
        state.entryTable (Instancia.compactationCompact config state).entryTable :=
      htable ▸ forall₂_packFrom 0 state.entryTable
    obtain ⟨hlength, hget⟩ := List.forall₂_iff_get.mp hsame
    refine List.forall₂_iff_get.mpr ⟨hlength, fun i hentry hmoved => ?_⟩
    obtain ⟨hkey, hsize⟩ := hget i hentry hmoved
    refine ⟨hkey, hsize, ?_⟩
    exact hinv.retrieve_eq_of_contents inv hcontents (List.get_mem _ _) (List.get_mem _ _) hkey
  · intro earlier moved later hsplit
    rw [htable] at hsplit
    simpa using number_of_packFrom hsplit
  · intro i hi
    have hspace := inv.table.left_eq
    rw [hleft, htable]
    constructor
    · intro hfree
      by_contra hlow
      obtain ⟨entry, hentry, hrun⟩ : ∃ entry ∈ packFrom config 0 state.entryTable,
          i ∈ entry.run config := exists_run_of_lt_packed (Nat.zero_le i) (by omega)
      exact hfree entry hentry hrun
    · intro hhigh entry hentry hrun
      have hend := end_le_of_mem_packFrom hentry
      rw [Entry.mem_run] at hrun
      omega
  · rw [hinv.compactationCompact_packed, htable, packFrom_packFrom]

end InstanceInvariant

/-- Two keys are on both sides of a free slot, and the second one moves over it. -/
theorem compacted_gap :
    ∃ state : InstanceState, state.entryTable = [⟨0, 1, literal [97]⟩, ⟨2, 1, literal [98]⟩] ∧
      (compactationCompact threeEntries state).entryTable =
        [⟨0, 1, literal [97]⟩, ⟨1, 1, literal [98]⟩] ∧
      Compacted threeEntries state (compactationCompact threeEntries state) := by
  obtain ⟨finish, hrun, hcheck⟩ := PartialStep.exists_run_of_execute (instanceStep threeEntries)
    (freshInstance threeEntries [])
    [.set ⟨true, literal [97], literal [120, 120], by decide, true⟩,
      .set ⟨true, literal [98], literal [121], by decide, true⟩,
      .set ⟨false, literal [97], literal [122], by decide, true⟩]
    (fun traced => decide (traced.state.entryTable =
        [⟨0, 1, literal [97]⟩, ⟨2, 1, literal [98]⟩]) &&
      decide ((compactationCompact threeEntries traced.state).entryTable =
        [⟨0, 1, literal [97]⟩, ⟨1, 1, literal [98]⟩])) (by decide +kernel)
  rw [Bool.and_eq_true, decide_eq_true_eq, decide_eq_true_eq] at hcheck
  exact ⟨finish.state, hcheck.1, hcheck.2,
    ((InstanceReachable.of_run hrun).invariant.compacted).1⟩

end SockMyPort.Instancia
