/-
# Searching for room

What the search functions of the entry table guarantee about their result: the
run that they name is free of the entries of every other key. The search is
also complete, which compaction depends on.
-/

import SockMyPort.Instancia.Layout

namespace SockMyPort.Instancia

open SockMyPort.Commons Library

variable {config : Config}

/-! ## Free runs -/

variable (config) in
/-- A run of `count` slots from `number` on that meets no entry of the table. -/
def FreeRun (table : List Entry) (number count : ℕ) : Prop :=
  ∀ entry ∈ table, number + count ≤ entry.number ∨ entry.number + entry.slots config ≤ number

theorem FreeRun.mono {table smaller : List Entry} {number count : ℕ}
    (hfree : FreeRun config table number count) (hsub : ∀ entry ∈ smaller, entry ∈ table) :
    FreeRun config smaller number count :=
  fun entry hmem => hfree entry (hsub entry hmem)

/-- A gap found between neighbours lies between two neighbours. -/
theorem exists_of_gapBetween {needed number : ℕ} {table : List Entry}
    (hgap : gapBetween config needed table = some number) :
    ∃ before first second after, table = before ++ first :: second :: after ∧
      number = first.number + first.slots config ∧ number + needed ≤ second.number := by
  fun_induction gapBetween config needed table with
  | case1 first second rest firstEnd hroom =>
      obtain rfl := Option.some.inj hgap
      exact ⟨[], first, second, rest, rfl, rfl, by omega⟩
  | case2 first second rest firstEnd hroom ih =>
      obtain ⟨before, left, right, after, htable, hnumber, hfits⟩ := ih hgap
      exact ⟨first :: before, left, right, after, by rw [htable]; rfl, hnumber, hfits⟩
  | case3 => cases hgap

/-- When no gap between neighbours suffices, a free run after the first entry is
after every entry. -/
theorem end_le_of_gapBetween_none {needed number : ℕ} {first : Entry} {table : List Entry}
    (hnone : gapBetween config needed (first :: table) = none)
    (hfree : FreeRun config table number needed)
    (hfirst : first.number + first.slots config ≤ number) :
    ∀ entry ∈ first :: table, entry.number + entry.slots config ≤ number := by
  induction table generalizing first with
  | nil => simpa using hfirst
  | cons second table ih =>
      simp only [gapBetween] at hnone
      split at hnone
      · cases hnone
      · rename_i hroom
        have hsecond : second.number + second.slots config ≤ number := by
          rcases hfree second (by simp) with hbefore | hafter
          · simp only [Entry.slots] at *
            omega
          · exact hafter
        have hrest := ih hnone (hfree.mono fun entry hmem => by simp [hmem]) hsecond
        intro entry hmem
        rcases List.mem_cons.mp hmem with rfl | hmem
        · exact hfirst
        · exact hrest entry hmem

namespace TableInvariant

variable {table : List Entry} {left : ℤ}

theorem toSizeT_room (inv : TableInvariant config table left) {entry : Entry}
    (hmem : entry ∈ table) :
    toSizeT (config.totalEntries - (entry.number + entry.slots config : ℕ)) =
      config.totalEntries - (entry.number + entry.slots config) := by
  have hinside := inv.inside entry hmem
  have hsmall : config.totalEntries < 2 ^ 31 := config.setup.totalEntries_lt
  have h := toSizeT_of_small (config.totalEntries - (entry.number + entry.slots config : ℕ))
    (by omega) (by omega)
  omega

/-- Room that the search finds is free, and inside the storage unless the table
is empty. -/
theorem searchGap_sound (inv : TableInvariant config table left) {needed number : ℕ}
    (hsearch : searchGap config needed table = some number) :
    FreeRun config table number needed ∧
      (table ≠ [] → number + needed ≤ config.totalEntries) := by
  cases table with
  | nil => exact ⟨by simp [FreeRun], fun h => absurd rfl h⟩
  | cons first rest =>
      have hsep := inv.separated
      simp only [searchGap] at hsearch
      split at hsearch
      · -- before the first entry
        rename_i hroom
        obtain rfl := Option.some.inj hsearch
        have hhead := (List.pairwise_cons.mp hsep).1
        refine ⟨fun entry hmem => .inl ?_, fun _ => ?_⟩
        · rcases List.mem_cons.mp hmem with rfl | hmem
          · omega
          · have := hhead entry hmem
            omega
        · have := inv.inside first (by simp)
          omega
      · split at hsearch
        · -- between two neighbours
          rename_i hgap
          obtain rfl := Option.some.inj hsearch
          obtain ⟨before, low, high, after, htable, hnumber, hfits⟩ := exists_of_gapBetween hgap
          rw [htable] at hsep inv ⊢
          obtain ⟨-, htail, hcross⟩ := List.pairwise_append.mp hsep
          obtain ⟨-, htail⟩ := List.pairwise_cons.mp htail
          have hhigh := (List.pairwise_cons.mp htail).1
          refine ⟨fun entry hmem => ?_, fun _ => ?_⟩
          · rcases List.mem_append.mp hmem with hmem | hmem
            · have := hcross entry hmem low (by simp)
              right
              omega
            · rcases List.mem_cons.mp hmem with rfl | hmem
              · right
                omega
              · rcases List.mem_cons.mp hmem with rfl | hmem
                · left
                  exact hfits
                · have := hhigh entry hmem
                  left
                  omega
          · have := inv.inside high (by simp)
            omega
        · -- after the last entry
          split at hsearch
          · rename_i hroom
            obtain rfl := Option.some.inj hsearch
            have hlast := List.getLast_mem (List.cons_ne_nil first rest)
            have htoSizeT := inv.toSizeT_room hlast
            have hinside := inv.inside _ hlast
            refine ⟨fun entry hmem => .inr ?_, fun _ => ?_⟩
            · exact hsep.end_le_getLast (List.cons_ne_nil first rest) hmem
            · simp only [Entry.slots] at *
              omega
          · cases hsearch

/-- The search finds room whenever there is some. -/
theorem searchGap_complete (inv : TableInvariant config table left) {needed number : ℕ}
    (hneeded : 0 < needed) (hfree : FreeRun config table number needed)
    (hinside : number + needed ≤ config.totalEntries) :
    (searchGap config needed table).isSome := by
  cases table with
  | nil => rfl
  | cons first rest =>
      simp only [searchGap]
      split
      · rfl
      · rename_i hbefore
        split
        · rfl
        · rename_i hgap
          have hfirst : first.number + first.slots config ≤ number := by
            rcases hfree first (by simp) with hlow | hhigh
            · omega
            · exact hhigh
          have hlast := List.getLast_mem (List.cons_ne_nil first rest)
          have hend := end_le_of_gapBetween_none hgap
            (hfree.mono fun entry hmem => by simp [hmem]) hfirst _ hlast
          have htoSizeT := inv.toSizeT_room hlast
          rw [if_pos (by simp only [Entry.slots] at *; omega)]
          rfl

end TableInvariant

/-! ## The place of the next entry -/

theorem not_mem_of_nothingBegins {table : List Entry} {number extra : ℕ}
    (hnothing : nothingBegins table number extra = true) {entry : Entry} (hmem : entry ∈ table) :
    entry.number < number ∨ number + extra ≤ entry.number := by
  induction extra generalizing number with
  | zero => omega
  | succ extra ih =>
      simp only [nothingBegins, Bool.and_eq_true, Option.isNone_iff_eq_none,
        entryTableGetEntryByEntryNumber, List.find?_eq_none, decide_eq_true_eq] at hnothing
      obtain ⟨hhere, hrest⟩ := hnothing
      have hne := hhere entry hmem
      have := ih hrest
      omega

namespace TableInvariant

variable {state : InstanceState}

/-- A stored key that stays in place meets no other entry, also when it grows. -/
theorem freeRun_of_growsInPlace (inv : TableInvariant config state.entryTable state.entriesLeft)
    {keyValue : KeyValue} {entry : Entry}
    (hget : entryTableGetEntry state.entryTable keyValue.key = some entry)
    (hgrows : growsInPlace config state keyValue entry = true) :
    FreeRun config (otherEntries state.entryTable keyValue.key) entry.number
      (reqEntries config keyValue.size) := by
  intro other hmem
  obtain ⟨hother, hkey⟩ := inv.mem_otherEntries_iff.mp hmem
  have hne : entry ≠ other := by
    rintro rfl
    exact hkey (key_of_getEntry hget)
  have hapart := inv.apart_of_mem (mem_of_getEntry hget) hother hne
  simp only [growsInPlace] at hgrows
  split at hgrows
  · -- the new value takes no more entries than the old one
    rename_i hsize
    have := reqEntries_mono config hsize
    rcases hapart with hafter | hbefore
    · left
      simp only [Entry.slots] at *
      omega
    · exact .inr hbefore
  · rw [Bool.and_eq_true] at hgrows
    have hbegins := not_mem_of_nothingBegins hgrows.2 hother
    simp only [entryTableEntriesNeeded_eq, keyValueGenerator_size] at hbegins
    rcases hapart with hafter | hbefore
    · left
      simp only [Entry.slots] at *
      omega
    · exact .inr hbefore

/-- The place chosen for a value meets no entry of another key. -/
theorem freeRun_of_nextEntry (inv : TableInvariant config state.entryTable state.entriesLeft)
    {keyValue : KeyValue} {nextEntry : ℕ}
    (hnext : entryTableNextEntry config state keyValue = some nextEntry) :
    FreeRun config (otherEntries state.entryTable keyValue.key) nextEntry
      (reqEntries config keyValue.size) := by
  simp only [entryTableNextEntry, entryTableEntriesNeeded_eq] at hnext
  split at hnext
  · rename_i entry hget
    split at hnext
    · rename_i hgrows
      obtain rfl := Option.some.inj hnext
      exact inv.freeRun_of_growsInPlace hget hgrows
    · exact (inv.searchGap_sound hnext).1.mono fun _ => mem_otherEntries_subset
  · split at hnext
    · exact (inv.searchGap_sound hnext).1.mono fun _ => mem_otherEntries_subset
    · cases hnext

/-- A new key that fits in the free entries is placed where the search says. -/
theorem nextEntry_of_new {keyValue : KeyValue}
    (hget : entryTableGetEntry state.entryTable keyValue.key = none)
    (hfits : entryTableHaveEntries config state keyValue = true) :
    entryTableNextEntry config state keyValue =
      searchGap config (reqEntries config keyValue.size) state.entryTable := by
  simp only [entryTableNextEntry, hget, hfits, if_true, entryTableEntriesNeeded_eq]

end TableInvariant

end SockMyPort.Instancia
