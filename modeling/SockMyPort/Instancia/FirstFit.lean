/-
# First fit

For a key that is not stored, `entry_table_next_entry` names the least place at which
the value fits, and none only when there is none. The search looks at the gaps of the
sorted table from left to right, and a place between two gaps is not free.
-/

import SockMyPort.Instancia.Coherence
import Mathlib.Order.Bounds.Basic

namespace SockMyPort.Instancia

open SockMyPort.Commons Library

variable {config : Config}

/-! ## Places -/

variable (config) in
/-- The places from which so many slots of the storage are free. -/
def places (table : List Entry) (count : ℕ) : Set ℕ :=
  {number | number + count ≤ config.totalEntries ∧
    ∀ i, number ≤ i → i < number + count → ∀ entry ∈ table, i ∉ entry.run config}

/-- Two runs that are not empty share no slot exactly when one ends before the other. -/
theorem mem_places_iff {table : List Entry} (hslots : ∀ entry ∈ table, 0 < entry.slots config)
    {number count : ℕ} (hcount : 0 < count) :
    number ∈ places config table count ↔
      number + count ≤ config.totalEntries ∧ FreeRun config table number count := by
  apply and_congr_right
  intro _
  constructor
  · intro hfree entry hmem
    have hpos := hslots entry hmem
    have hstart := hfree number (Nat.le_refl _) (by omega) entry hmem
    rw [Entry.mem_run] at hstart
    by_cases hbehind : entry.number + entry.slots config ≤ number
    · exact .inr hbehind
    · apply Or.inl
      by_contra hover
      have hshared := hfree entry.number (by omega) (by omega) entry hmem
      rw [Entry.mem_run] at hshared
      omega
  · intro hfree i hlow hhigh entry hmem hrun
    rw [Entry.mem_run] at hrun
    have := hfree entry hmem
    omega

/-! ## The search -/

/-- No free run begins before the gap that is found. -/
theorem le_of_gapBetween {needed number place : ℕ} {first : Entry} {table : List Entry}
    (hgap : gapBetween config needed (first :: table) = some number)
    (hfree : FreeRun config table place needed)
    (hfirst : first.number + first.slots config ≤ place) : number ≤ place := by
  induction table generalizing first with
  | nil => cases hgap
  | cons second table ih =>
      simp only [gapBetween] at hgap
      split at hgap
      · obtain rfl := Option.some.inj hgap
        exact hfirst
      · rename_i hroom
        apply ih hgap (hfree.mono fun entry hmem => List.mem_cons_of_mem _ hmem)
        rcases hfree second List.mem_cons_self with hbefore | hafter
        · simp only [Entry.slots] at *
          omega
        · exact hafter

namespace TableInvariant

variable {table : List Entry} {left : ℤ}

/-- No free run begins before the place that the search names. -/
theorem searchGap_le {needed number place : ℕ}
    (hsearch : searchGap config needed table = some number)
    (hneeded : 0 < needed) (hfree : FreeRun config table place needed) : number ≤ place := by
  cases table with
  | nil =>
      obtain rfl := Option.some.inj hsearch
      exact Nat.zero_le place
  | cons first rest =>
      simp only [searchGap] at hsearch
      split at hsearch
      · obtain rfl := Option.some.inj hsearch
        exact Nat.zero_le place
      · rename_i hbefore
        have hrest : FreeRun config rest place needed :=
          hfree.mono fun entry hmem => List.mem_cons_of_mem _ hmem
        have hfirst : first.number + first.slots config ≤ place := by
          rcases hfree first List.mem_cons_self with hlow | hhigh
          · omega
          · exact hhigh
        split at hsearch
        · rename_i hgap
          obtain rfl := Option.some.inj hsearch
          exact le_of_gapBetween hgap hrest hfirst
        · rename_i hgap
          split at hsearch
          · obtain rfl := Option.some.inj hsearch
            exact end_le_of_gapBetween_none hgap hrest hfirst _
              (List.getLast_mem (List.cons_ne_nil first rest))
          · cases hsearch

/-- A free run is not longer than all free slots together. -/
theorem needed_le_left (inv : TableInvariant config table left) {keyValue : KeyValue} {place : ℕ}
    (hnew : entryTableGetEntry table keyValue.key = none) (hsize : 0 < keyValue.size)
    (hfree : FreeRun config table place (reqEntries config keyValue.size))
    (hinside : place + reqEntries config keyValue.size ≤ config.totalEntries) :
    (reqEntries config keyValue.size : ℤ) ≤ left := by
  have hinserted : TableInvariant config
      (config.sort.listSort ascending (convertKeyValueToEntry keyValue place :: table))
      (left - reqEntries config keyValue.size) :=
    inv.insert (config.sort.perm ascending _) (listSort_ascending_pairwise _)
      (entryTableGetEntry_eq_none_iff.mp hnew) hfree hinside hsize keyValue.key_short
  have hleft := hinserted.left_nonneg
  omega

end TableInvariant

/-! ## The result -/

/-- What the search names is the least place. -/
theorem isLeast_of_nextEntry {state : InstanceState}
    (inv : TableInvariant config state.entryTable state.entriesLeft) {keyValue : KeyValue}
    (hnew : entryTableGetEntry state.entryTable keyValue.key = none) (hsize : 0 < keyValue.size)
    {number : ℕ} (hnext : entryTableNextEntry config state keyValue = some number) :
    IsLeast (places config state.entryTable (reqEntries config keyValue.size)) number := by
  have hneeded : 0 < reqEntries config keyValue.size := reqEntries_pos hsize
  simp only [entryTableNextEntry, hnew, entryTableEntriesNeeded_eq] at hnext
  split at hnext
  · rename_i hfits
    obtain ⟨hfree, hinside⟩ := inv.searchGap_sound hnext
    constructor
    · rw [mem_places_iff inv.slots_pos hneeded]
      refine ⟨?_, hfree⟩
      by_cases hempty : state.entryTable = []
      · -- the whole storage is free, and the value is not larger than it
        have hleft := inv.left_le
        have hroom := of_decide_eq_true hfits
        rw [entryTableEntriesNeeded_eq] at hroom
        rw [hempty] at hnext
        obtain rfl := Option.some.inj hnext
        omega
      · exact hinside hempty
    · intro place hplace
      have hplaced := (mem_places_iff inv.slots_pos hneeded).mp hplace
      exact TableInvariant.searchGap_le hnext hneeded hplaced.2
  · cases hnext

/-- The search fails only when there is no place. -/
theorem nextEntry_isSome_of_mem_places {state : InstanceState}
    (inv : TableInvariant config state.entryTable state.entriesLeft) {keyValue : KeyValue}
    (hnew : entryTableGetEntry state.entryTable keyValue.key = none) (hsize : 0 < keyValue.size)
    {place : ℕ}
    (hplace : place ∈ places config state.entryTable (reqEntries config keyValue.size)) :
    (entryTableNextEntry config state keyValue).isSome := by
  have hneeded : 0 < reqEntries config keyValue.size := reqEntries_pos hsize
  obtain ⟨hinside, hfree⟩ := (mem_places_iff inv.slots_pos hneeded).mp hplace
  have hleft := inv.needed_le_left hnew hsize hfree hinside
  rw [TableInvariant.nextEntry_of_new hnew (decide_eq_true hleft)]
  exact inv.searchGap_complete hneeded hfree hinside

/-- The storage takes a value at a place for it. -/
theorem storageSet_of_inside (state : InstanceState) {number size : ℕ} (value : List UInt8)
    (hinside : number + reqEntries config size ≤ config.totalEntries) :
    (storageSet config state number value size).isSome := by
  have hsize := le_reqEntries_mul config size
  have hbytes := Nat.mul_le_mul_right config.entrySize hinside
  rw [Nat.add_mul] at hbytes
  rw [storageSet, if_neg (by omega)]
  rfl

/-- **A new key is placed at the least place where its value fits**, which is none only
when there is no such place, and the storage takes the value there. -/
theorem nextEntry_firstFit {state : InstanceState}
    (inv : TableInvariant config state.entryTable state.entriesLeft) (keyValue : KeyValue)
    (hnew : entryTableGetEntry state.entryTable keyValue.key = none) (hsize : 0 < keyValue.size) :
    (∀ number, entryTableNextEntry config state keyValue = some number ↔
      IsLeast (places config state.entryTable (reqEntries config keyValue.size)) number) ∧
    (entryTableNextEntry config state keyValue = none ↔
      places config state.entryTable (reqEntries config keyValue.size) = ∅) ∧
    ∀ number, entryTableNextEntry config state keyValue = some number →
      (storageSet config state number (bytesOf keyValue.value) keyValue.size).isSome := by
  have hleast := fun number (hnext : entryTableNextEntry config state keyValue = some number) =>
    isLeast_of_nextEntry inv hnew hsize hnext
  refine ⟨fun number => ⟨hleast number, fun hnumber => ?_⟩, ⟨fun hnone => ?_, fun hempty => ?_⟩,
    fun number hnext => ?_⟩
  · obtain ⟨found, hfound⟩ := Option.isSome_iff_exists.mp
      (nextEntry_isSome_of_mem_places inv hnew hsize hnumber.1)
    rw [hfound, (hleast found hfound).unique hnumber]
  · apply Set.eq_empty_of_forall_notMem
    intro place hplace
    have hsome := nextEntry_isSome_of_mem_places inv hnew hsize hplace
    rw [hnone] at hsome
    cases hsome
  · cases hnext : entryTableNextEntry config state keyValue with
    | none => rfl
    | some number =>
        have hmem := (hleast number hnext).1
        rw [hempty] at hmem
        cases hmem
  · exact storageSet_of_inside state _ (hleast number hnext).1.1

/-- A key gives up the second of three slots, and a new key goes there. -/
theorem nextEntry_firstFit_gap :
    ∃ state : InstanceState, state.entryTable = [⟨0, 1, literal [97]⟩, ⟨2, 1, literal [98]⟩] ∧
      IsLeast (places threeEntries state.entryTable 1) 1 ∧
      (storageSet threeEntries state 1 [120] 1).isSome := by
  obtain ⟨finish, hrun, hcheck⟩ := PartialStep.exists_run_of_execute (instanceStep threeEntries)
    (freshInstance threeEntries [])
    [.set ⟨true, literal [97], literal [120, 120], by decide, true⟩,
      .set ⟨true, literal [98], literal [120], by decide, true⟩,
      .set ⟨false, literal [97], literal [120], by decide, true⟩]
    (fun traced => decide (traced.state.entryTable =
        [⟨0, 1, literal [97]⟩, ⟨2, 1, literal [98]⟩]) &&
      decide (entryTableNextEntry threeEntries traced.state
        (keyValueCreate (literal [99]) (literal [120])) = some 1)) (by decide +kernel)
  rw [Bool.and_eq_true, decide_eq_true_eq, decide_eq_true_eq] at hcheck
  have hfirst := nextEntry_firstFit (InstanceReachable.of_run hrun).invariant.table
    (keyValueCreate (literal [99]) (literal [120])) (by rw [hcheck.1]; decide) (by decide)
  exact ⟨finish.state, hcheck.1, (hfirst.1 1).mp hcheck.2, hfirst.2.2 1 hcheck.2⟩

end SockMyPort.Instancia
