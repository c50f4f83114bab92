/-
# Two searches for a place

`entry_table_has_continous_entries` says whether a value has a place, and
`entry_table_next_entry` names one. The first takes the key out of the table, matching it
without regard to case, and accepts a key that is last in the table whatever its new size;
the second grows the key in place or looks among the slots that are free while the key still
has its own. This module says exactly when the two agree.
-/

import SockMyPort.Instancia.FirstFit
import SockMyPort.Instancia.LeastRecentlySet

namespace SockMyPort.Instancia

open SockMyPort.Commons Library

variable {config : Config}

/-! ## Where the searches are used -/

variable (config) in
/-- The states in which `instance_set` looks for a place: those that runs reach, those in
which a call begins, and those in which its replacement step leaves the instance. -/
inductive PlacingState (mountPoint : CString) : InstanceState → Prop
  | reached {state : InstanceState} (hreach : InstanceReachable config mountPoint state) :
      PlacingState mountPoint state
  | begun {events : List Request} {finish : TracedInstance} {request : Request}
      {start : SetStart}
      (hrun : (instanceStep config).FreeRuns (freshInstance config mountPoint) events finish)
      (hmem : start ∈ setStarts config finish request) : PlacingState mountPoint start.state
  | replaced {events : List Request} {finish : TracedInstance} {request : Request}
      {start : SetStart}
      (hrun : (instanceStep config).FreeRuns (freshInstance config mountPoint) events finish)
      (hmem : start ∈ setStarts config finish request) :
      PlacingState mountPoint
        (instanceSetReplace config start.state start.keyValue start.replacedKeys).1

theorem PlacingState.invariant {mountPoint : CString} {state : InstanceState}
    (hplacing : PlacingState config mountPoint state) : InstanceInvariant config state := by
  cases hplacing with
  | reached hreach => exact hreach.invariant
  | begun hrun hmem =>
      exact ((InstanceReachable.of_run hrun).invariant.setStart hmem).1
  | replaced hrun hmem =>
      obtain ⟨hstart, -, hshort, hgone⟩ :=
        (InstanceReachable.of_run hrun).invariant.setStart hmem
      exact (hstart.instanceSetReplace _ _ hshort hgone).inv

/-! ## The condition -/

variable (config) in
/-- The two searches agree on a value: one accepts it exactly when the other names a place
inside the storage that no other key occupies. -/
def PlacementsAgree (state : InstanceState) (keyValue : KeyValue) : Prop :=
  entryTableHasContinousEntries config state keyValue = true ↔
    ∃ number, entryTableNextEntry config state keyValue = some number ∧
      number ∈ places config (otherEntries state.entryTable keyValue.key)
        (reqEntries config keyValue.size)

/-- The first entry whose key is the given one but for the case of its letters. -/
def firstIgnoringCase (table : List Entry) (key : CString) : Option Entry :=
  table.find? fun entry => stringEqualsIgnoreCase key entry.key

/-- The table without that entry. -/
def withoutIgnoringCase (table : List Entry) (key : CString) : List Entry :=
  listRemoveByCondition table fun entry => stringEqualsIgnoreCase key entry.key

variable (config) in
/-- From the first slot of its own entry on, the value meets no other key. -/
def GrowsFreely (table : List Entry) (keyValue : KeyValue) (own : Entry) : Prop :=
  FreeRun config (otherEntries table keyValue.key) own.number (reqEntries config keyValue.size)

variable (config) in
/-- What is right for a key that no earlier entry has in other letters: in place it does not
outgrow the storage, and elsewhere it does not need its own slots. -/
structure AgreesAlone (table : List Entry) (keyValue : KeyValue) (own : Entry) : Prop where
  inPlace : GrowsFreely config table keyValue own →
    own.number + reqEntries config keyValue.size ≤ config.totalEntries
  elsewhere : ¬ GrowsFreely config table keyValue own →
    (places config (otherEntries table keyValue.key)
      (reqEntries config keyValue.size)).Nonempty →
    (places config table (reqEntries config keyValue.size)).Nonempty

variable (config) in
/-- The entry of a twin, enlarged by what the value takes beyond the key's own entry, ends
before the next entry; or there is a place without the twin. -/
def RoomAtTwin (table : List Entry) (keyValue : KeyValue) (own twin : Entry) : Prop :=
  let enlarged : ℤ := twin.number + twin.slots config +
    (reqEntries config keyValue.size - own.slots config)
  (0 ≤ enlarged ∧ ∀ entry ∈ table, twin.number < entry.number → enlarged < entry.number) ∨
    (places config (withoutIgnoringCase table keyValue.key)
      (reqEntries config keyValue.size)).Nonempty

variable (config) in
/-- What is right for a key that an earlier entry has in other letters: room at that entry
goes with room for the key. -/
structure AgreesWithTwin (table : List Entry) (keyValue : KeyValue) (own twin : Entry) :
    Prop where
  inPlace : GrowsFreely config table keyValue own →
    (own.number + reqEntries config keyValue.size ≤ config.totalEntries ↔
      RoomAtTwin config table keyValue own twin)
  elsewhere : ¬ GrowsFreely config table keyValue own →
    RoomAtTwin config table keyValue own twin →
    (places config table (reqEntries config keyValue.size)).Nonempty

variable (config) in
/-- The layouts on which the searches agree. Nothing is asked of a new key. -/
def AgreeingLayout (table : List Entry) (keyValue : KeyValue) : Prop :=
  ∀ own ∈ table, own.key = keyValue.key →
    ∀ taken, firstIgnoringCase table keyValue.key = some taken →
      (taken = own → AgreesAlone config table keyValue own) ∧
      (taken ≠ own → AgreesWithTwin config table keyValue own taken)

/-! ## The place that is named -/

/-- The loop over the following slots ends at the last one when no entry begins there. -/
theorem nothingBegins_iff {table : List Entry} {number extra : ℕ} :
    nothingBegins table number extra = true ↔
      ∀ entry ∈ table, entry.number < number ∨ number + extra ≤ entry.number := by
  constructor
  · intro hnothing entry hmem
    exact not_mem_of_nothingBegins hnothing hmem
  · intro hapart
    induction extra generalizing number with
    | zero => rfl
    | succ extra ih =>
        rw [nothingBegins, Bool.and_eq_true]
        constructor
        · rw [Option.isNone_iff_eq_none, entryTableGetEntryByEntryNumber, List.find?_eq_none]
          intro entry hmem
          have := hapart entry hmem
          rw [decide_eq_true_eq]
          omega
        · apply ih
          intro entry hmem
          have := hapart entry hmem
          omega

namespace TableInvariant

variable {table : List Entry} {left : ℤ} {state : InstanceState} {keyValue : KeyValue}

/-- The search through a table that is not empty succeeds exactly when there is a place. -/
theorem searchGap_isSome_iff (inv : TableInvariant config table left) (hne : table ≠ [])
    {needed : ℕ} (hneeded : 0 < needed) :
    (searchGap config needed table).isSome ↔ (places config table needed).Nonempty := by
  constructor
  · intro hsome
    obtain ⟨number, hsearch⟩ := Option.isSome_iff_exists.mp hsome
    obtain ⟨hfree, hinside⟩ := inv.searchGap_sound hsearch
    exact ⟨number, (mem_places_iff inv.slots_pos hneeded).mpr ⟨hinside hne, hfree⟩⟩
  · rintro ⟨number, hplace⟩
    obtain ⟨hinside, hfree⟩ := (mem_places_iff inv.slots_pos hneeded).mp hplace
    exact inv.searchGap_complete hneeded hfree hinside

/-- A stored key that has enough entries stays in place exactly when it meets no other key
there. -/
theorem growsInPlace_iff (inv : TableInvariant config state.entryTable state.entriesLeft)
    {own : Entry} (hget : entryTableGetEntry state.entryTable keyValue.key = some own)
    (hentries : entryTableHasEntries config state keyValue = true) :
    growsInPlace config state keyValue own = true ↔
      GrowsFreely config state.entryTable keyValue own := by
  constructor
  · exact inv.freeRun_of_growsInPlace hget
  · intro hfree
    by_cases hsize : keyValue.size ≤ own.size
    · rw [growsInPlace, if_pos hsize]
    · rw [growsInPlace, if_neg hsize]
      simp only [entryTableEntriesNeeded_eq, keyValueGenerator_size, Bool.and_eq_true,
        decide_eq_true_eq]
      constructor
      · simpa [entryTableHasEntries, entryTableDiffEntries, hasKey_eq_isSome, hget] using hentries
      · rw [nothingBegins_iff]
        intro entry hmem
        have hpos := inv.slots_pos own (mem_of_getEntry hget)
        have hgrows := reqEntries_mono config (Nat.le_of_not_le hsize)
        by_cases hsame : entry = own
        · subst hsame
          left
          simp only [Entry.slots] at hpos
          omega
        · have hother : entry ∈ otherEntries state.entryTable keyValue.key := by
            rw [inv.mem_otherEntries_iff]
            refine ⟨hmem, fun hkey => hsame ?_⟩
            have hfound := (inv.getEntry_eq_some_iff keyValue.key entry).mpr ⟨hmem, hkey⟩
            exact Option.some.inj (hfound.symm.trans hget)
          have hslots := inv.slots_pos entry hmem
          rcases hfree entry hother with hbefore | hbehind
          · right
            omega
          · left
            omega

/-- The other entries satisfy the invariant, and they have slots. -/
theorem others_slots_pos (inv : TableInvariant config table left) (key : CString) :
    ∀ entry ∈ otherEntries table key, 0 < entry.slots config :=
  fun entry hmem => inv.slots_pos entry (mem_otherEntries_subset hmem)

/-- A stored key is given a place in its own entry or, when it cannot stay there, among the
slots that are free beside its own. -/
theorem nextEntry_place_iff (inv : TableInvariant config state.entryTable state.entriesLeft)
    {own : Entry} (hget : entryTableGetEntry state.entryTable keyValue.key = some own)
    (hentries : entryTableHasEntries config state keyValue = true) (hsize : 0 < keyValue.size) :
    (∃ number, entryTableNextEntry config state keyValue = some number ∧
      number ∈ places config (otherEntries state.entryTable keyValue.key)
        (reqEntries config keyValue.size)) ↔
    (GrowsFreely config state.entryTable keyValue own ∧
        own.number + reqEntries config keyValue.size ≤ config.totalEntries) ∨
      (¬ GrowsFreely config state.entryTable keyValue own ∧
        (places config state.entryTable (reqEntries config keyValue.size)).Nonempty) := by
  have hneeded : 0 < reqEntries config keyValue.size := reqEntries_pos hsize
  have hplace : ∀ number,
      number ∈ places config (otherEntries state.entryTable keyValue.key)
        (reqEntries config keyValue.size) ↔
      number + reqEntries config keyValue.size ≤ config.totalEntries ∧
        FreeRun config (otherEntries state.entryTable keyValue.key) number
          (reqEntries config keyValue.size) :=
    fun number => mem_places_iff (inv.others_slots_pos keyValue.key) hneeded
  by_cases hgrows : GrowsFreely config state.entryTable keyValue own
  · have hnext : entryTableNextEntry config state keyValue = some own.number := by
      rw [entryTableNextEntry]
      simp only [hget, (inv.growsInPlace_iff hget hentries).mpr hgrows, if_true]
    simp only [hnext, Option.some.injEq, exists_eq_left', hplace, hgrows, true_and, not_true,
      false_and, or_false]
    exact and_iff_left hgrows
  · have hstays : growsInPlace config state keyValue own = false := by
      rw [← Bool.not_eq_true, inv.growsInPlace_iff hget hentries]
      exact hgrows
    have hne : state.entryTable ≠ [] := List.ne_nil_of_mem (mem_of_getEntry hget)
    have hnext : entryTableNextEntry config state keyValue =
        searchGap config (reqEntries config keyValue.size) state.entryTable := by
      rw [entryTableNextEntry]
      simp only [hget, hstays, Bool.false_eq_true, if_false, entryTableEntriesNeeded_eq]
    rw [hnext]
    simp only [hgrows, false_and, not_false_iff, true_and, false_or]
    rw [← inv.searchGap_isSome_iff hne hneeded, Option.isSome_iff_exists]
    constructor
    · rintro ⟨number, hsearch, -⟩
      exact ⟨number, hsearch⟩
    · rintro ⟨number, hsearch⟩
      obtain ⟨hfree, hinside⟩ := inv.searchGap_sound hsearch
      exact ⟨number, hsearch,
        (hplace number).mpr ⟨hinside hne, hfree.mono fun _ => mem_otherEntries_subset⟩⟩

end TableInvariant

/-! ## The place that is promised -/

/-- The loop stops at the first entry behind the current one, or else at the last entry. -/
theorem followingEntry_append {current : Entry} {before after : List Entry}
    (hbefore : ∀ entry ∈ before, entry.number < current.number)
    (hafter : ∀ entry ∈ after, current.number < entry.number) :
    followingEntry current (before ++ after) = after.head?.or before.getLast? := by
  induction before with
  | nil =>
      cases after with
      | nil => rfl
      | cons following rest =>
          have hbehind := hafter following List.mem_cons_self
          cases rest with
          | nil => rfl
          | cons next rest =>
              rw [List.nil_append, followingEntry, if_neg (Nat.not_lt_of_gt hbehind)]
              rfl
  | cons first before ih =>
      have hrest := ih fun entry hmem => hbefore entry (List.mem_cons_of_mem _ hmem)
      cases hlist : before ++ after with
      | nil =>
          obtain ⟨rfl, rfl⟩ := List.append_eq_nil_iff.mp hlist
          rfl
      | cons next rest =>
          rw [hlist] at hrest
          rw [List.cons_append, hlist, followingEntry, if_pos (hbefore first List.mem_cons_self),
            hrest]
          cases after with
          | cons following rest => rfl
          | nil =>
              rw [List.append_nil] at hlist
              rw [hlist]
              rfl

/-- The entry that is taken out splits the table. -/
theorem exists_split_of_firstIgnoringCase {table : List Entry} {key : CString} {taken : Entry}
    (htaken : firstIgnoringCase table key = some taken) :
    ∃ before after, table = before ++ taken :: after ∧
      withoutIgnoringCase table key = before ++ after ∧
      (∀ entry ∈ before, stringEqualsIgnoreCase key entry.key = false) := by
  obtain ⟨hequal, before, after, rfl, hbefore⟩ := List.find?_eq_some_iff_append.mp htaken
  have hskip : ∀ entry ∈ before, stringEqualsIgnoreCase key entry.key = false := by
    intro entry hmem
    simpa using hbefore entry hmem
  refine ⟨before, after, rfl, ?_, hskip⟩
  rw [withoutIgnoringCase, listRemoveByCondition, List.eraseP_append_right _ fun entry hmem => by
    simp [hskip entry hmem], List.eraseP_cons, hequal, cond_true]

namespace TableInvariant

variable {state : InstanceState} {keyValue : KeyValue}

/-- A stored key is not behind the entry that is taken out for it. -/
theorem own_mem_of_split {table : List Entry} {key : CString} {own taken : Entry}
    {before after : List Entry} (hget : entryTableGetEntry table key = some own)
    (htable : table = before ++ taken :: after)
    (hbefore : ∀ entry ∈ before, stringEqualsIgnoreCase key entry.key = false) :
    own = taken ∨ own ∈ after := by
  have hmem := mem_of_getEntry hget
  rw [htable, List.mem_append, List.mem_cons] at hmem
  rcases hmem with hmem | hmem
  · have hskipped := hbefore own hmem
    rw [key_of_getEntry hget, stringEqualsIgnoreCase_self] at hskipped
    cases hskipped
  · exact hmem

/-- The tests that are made for a stored key, once an entry has been taken out for it. -/
theorem hasContinous_of_stored {own taken : Entry}
    (hget : entryTableGetEntry state.entryTable keyValue.key = some own)
    (htaken : firstIgnoringCase state.entryTable keyValue.key = some taken) :
    entryTableHasContinousEntries config state keyValue =
      match followingEntry taken (withoutIgnoringCase state.entryTable keyValue.key) with
      | none => true
      | some following =>
          if following.number < taken.number ∧ toSizeT (config.totalEntries - taken.number +
              reqEntries config keyValue.size) ≠ 0 then true
          else if toSizeT (taken.number + taken.slots config +
              (reqEntries config keyValue.size - own.slots config)) < following.number then true
          else (searchGap config (reqEntries config keyValue.size)
            (withoutIgnoringCase state.entryTable keyValue.key)).isSome := by
  have hdiff : entryTableDiffEntries config state.entryTable keyValue =
      reqEntries config keyValue.size - own.slots config := by
    simp [entryTableDiffEntries, hasKey_eq_isSome, hget]
  rw [firstIgnoringCase] at htaken
  rw [withoutIgnoringCase]
  cases hfollowing : followingEntry taken (listRemoveByCondition state.entryTable
      fun entry => stringEqualsIgnoreCase keyValue.key entry.key) <;>
    simp only [entryTableHasContinousEntries, hasKey_eq_isSome, hget, Option.isSome_some, if_true,
      hdiff, htaken, hfollowing, Entry.slots]

/-- A value that has enough entries is not so large that its size would wrap. -/
theorem needed_le_of_hasEntries (inv : TableInvariant config state.entryTable state.entriesLeft)
    {own : Entry} (hget : entryTableGetEntry state.entryTable keyValue.key = some own)
    (hentries : entryTableHasEntries config state keyValue = true) :
    (reqEntries config keyValue.size : ℤ) - own.slots config ≤ config.totalEntries := by
  have hfits := of_decide_eq_true hentries
  simp only [entryTableDiffEntries, hasKey_eq_isSome, hget, Option.isSome_some, if_true] at hfits
  exact hfits.trans inv.left_le

/-- A key that is last in the table is promised a place whatever it needs. -/
theorem hasContinous_of_last (inv : TableInvariant config state.entryTable state.entriesLeft)
    {own : Entry} {before : List Entry}
    (hget : entryTableGetEntry state.entryTable keyValue.key = some own)
    (htaken : firstIgnoringCase state.entryTable keyValue.key = some own)
    (htable : state.entryTable = before ++ [own])
    (hmock : withoutIgnoringCase state.entryTable keyValue.key = before)
    (hentries : entryTableHasEntries config state keyValue = true) :
    entryTableHasContinousEntries config state keyValue = true ∧
      RoomAtTwin config state.entryTable keyValue own own := by
  have hown := inv.inside own (mem_of_getEntry hget)
  have hpos := inv.slots_pos own (mem_of_getEntry hget)
  have hsmall : config.totalEntries < 2 ^ 31 := config.setup.totalEntries_lt
  have hneeded := inv.needed_le_of_hasEntries hget hentries
  have hsorted := inv.numbers_lt
  rw [htable, List.pairwise_append] at hsorted
  have hbefore : ∀ entry ∈ before, entry.number < own.number :=
    fun entry hmem => hsorted.2.2 entry hmem own List.mem_cons_self
  have hfollowing : followingEntry own (before ++ []) = before.getLast? :=
    followingEntry_append hbefore (by simp)
  rw [List.append_nil] at hfollowing
  constructor
  · rw [hasContinous_of_stored hget htaken, hmock, hfollowing]
    cases hlast : before.getLast? with
    | none => rfl
    | some last =>
        have hnumber := hbefore last (List.mem_of_getLast? hlast)
        have hconverted := toSizeT_of_small
          (config.totalEntries - own.number + reqEntries config keyValue.size) (by omega)
          (by omega)
        exact if_pos ⟨hnumber, by omega⟩
  · left
    refine ⟨by omega, fun entry hmem hbehind => ?_⟩
    rw [htable, List.mem_append, List.mem_singleton] at hmem
    rcases hmem with hmem | rfl
    · have := hbefore entry hmem
      omega
    · omega

/-- A key that is not last is promised a place when there is room at the entry that is taken
out for it. -/
theorem hasContinous_of_following
    (inv : TableInvariant config state.entryTable state.entriesLeft) {own taken following : Entry}
    {before rest : List Entry}
    (hget : entryTableGetEntry state.entryTable keyValue.key = some own)
    (htaken : firstIgnoringCase state.entryTable keyValue.key = some taken)
    (htable : state.entryTable = before ++ taken :: following :: rest)
    (hmock : withoutIgnoringCase state.entryTable keyValue.key = before ++ following :: rest)
    (hentries : entryTableHasEntries config state keyValue = true) (hsize : 0 < keyValue.size) :
    entryTableHasContinousEntries config state keyValue = true ↔
      RoomAtTwin config state.entryTable keyValue own taken := by
  have hsmall : config.totalEntries < 2 ^ 31 := config.setup.totalEntries_lt
  have hneeded := inv.needed_le_of_hasEntries hget hentries
  have hown := inv.inside own (mem_of_getEntry hget)
  have hinside := inv.inside taken (by rw [htable]; simp)
  have hmem : following ∈ state.entryTable := by
    rw [htable]
    simp
  have hend := inv.inside following hmem
  have hsorted := inv.numbers_lt
  rw [htable, List.pairwise_append] at hsorted
  obtain ⟨-, hsorted, hcross⟩ := hsorted
  obtain ⟨hafter, hrest⟩ := List.pairwise_cons.mp hsorted
  have hbehind := hafter following List.mem_cons_self
  -- the following entry is the nearest one
  have hnearest : ∀ entry ∈ state.entryTable, taken.number < entry.number →
      following.number ≤ entry.number := by
    intro entry hmem hlater
    rw [htable] at hmem
    simp only [List.mem_append, List.mem_cons] at hmem
    rcases hmem with hmem | rfl | rfl | hmem
    · have := hcross entry hmem taken List.mem_cons_self
      omega
    · omega
    · exact Nat.le_refl _
    · exact Nat.le_of_lt ((List.pairwise_cons.mp hrest).1 entry hmem)
  have hfollowing : followingEntry taken (before ++ following :: rest) = some following :=
    followingEntry_append (fun entry hmem => hcross entry hmem taken List.mem_cons_self) hafter
  have hmockInv : TableInvariant config (before ++ following :: rest)
      (state.entriesLeft + taken.slots config) := by
    rw [htable] at inv
    exact inv.delete
  have hconverted := toSizeT_lt_iff
    (taken.number + taken.slots config +
      (reqEntries config keyValue.size - own.slots config)) following.number
    (by omega) (by omega) (by omega)
  rw [hasContinous_of_stored hget htaken, hmock, hfollowing]
  simp only
  rw [if_neg fun h => Nat.lt_asymm hbehind h.1]
  simp only [hconverted]
  split
  · rename_i hends
    refine iff_of_true rfl (.inl ⟨hends.1, fun entry hentry hlater => ?_⟩)
    have := hnearest entry hentry hlater
    omega
  · rename_i hends
    rw [hmockInv.searchGap_isSome_iff (by simp) (reqEntries_pos hsize), RoomAtTwin, hmock]
    refine (or_iff_right fun hroom => hends ⟨hroom.1, ?_⟩).symm
    exact hroom.2 following hmem hbehind

/-- A stored key is promised a place when there is room at the entry that is taken out. -/
theorem hasContinous_iff (inv : TableInvariant config state.entryTable state.entriesLeft)
    {own taken : Entry} (hget : entryTableGetEntry state.entryTable keyValue.key = some own)
    (htaken : firstIgnoringCase state.entryTable keyValue.key = some taken)
    (hentries : entryTableHasEntries config state keyValue = true) (hsize : 0 < keyValue.size) :
    entryTableHasContinousEntries config state keyValue = true ↔
      RoomAtTwin config state.entryTable keyValue own taken := by
  obtain ⟨before, after, htable, hmock, hskip⟩ := exists_split_of_firstIgnoringCase htaken
  cases after with
  | nil =>
      -- the entry that is taken out is the last one, and it is the key's own
      obtain rfl : own = taken :=
        (own_mem_of_split hget htable hskip).resolve_right List.not_mem_nil
      rw [List.append_nil] at hmock
      obtain ⟨hpromised, hroom⟩ := inv.hasContinous_of_last hget htaken htable hmock hentries
      exact iff_of_true hpromised hroom
  | cons following rest =>
      exact inv.hasContinous_of_following hget htaken htable hmock hentries hsize

end TableInvariant

/-! ## Where the searches agree -/

/-- A smaller table has more places. -/
theorem places_mono {table smaller : List Entry} {count : ℕ}
    (hsub : ∀ entry ∈ smaller, entry ∈ table) :
    places config table count ⊆ places config smaller count := by
  rintro number ⟨hinside, hfree⟩
  refine ⟨hinside, fun i hlow hhigh entry hmem => ?_⟩
  exact hfree i hlow hhigh entry (hsub entry hmem)

namespace TableInvariant

variable {state : InstanceState} {keyValue : KeyValue}

/-- For a key that the table lacks, both searches are one. -/
theorem placementsAgree_of_new (inv : TableInvariant config state.entryTable state.entriesLeft)
    (hget : entryTableGetEntry state.entryTable keyValue.key = none)
    (hentries : entryTableHasEntries config state keyValue = true) (hsize : 0 < keyValue.size) :
    PlacementsAgree config state keyValue := by
  have hfits : (reqEntries config keyValue.size : ℤ) ≤ state.entriesLeft := by
    have hdiff := of_decide_eq_true hentries
    rwa [diffEntries_of_none config hget] at hdiff
  have hnext := nextEntry_of_new hget (decide_eq_true hfits)
  have hpromised : entryTableHasContinousEntries config state keyValue =
      (entryTableNextEntry config state keyValue).isSome := by
    rw [hnext, entryTableHasContinousEntries, hasKey_eq_isSome, hget]
    rfl
  rw [PlacementsAgree, hpromised, otherEntries_of_none hget, Option.isSome_iff_exists]
  constructor
  · rintro ⟨number, hnumber⟩
    exact ⟨number, hnumber, (isLeast_of_nextEntry inv hget hsize hnumber).1⟩
  · rintro ⟨number, hnumber, -⟩
    exact ⟨number, hnumber⟩

/-- When only the key itself is taken out, there is room exactly where it grows freely or
has a place among its own and the free slots. -/
theorem roomAtTwin_own_iff (inv : TableInvariant config state.entryTable state.entriesLeft)
    {own : Entry} (hget : entryTableGetEntry state.entryTable keyValue.key = some own)
    (htaken : firstIgnoringCase state.entryTable keyValue.key = some own)
    (hsize : 0 < keyValue.size) :
    RoomAtTwin config state.entryTable keyValue own own ↔
      GrowsFreely config state.entryTable keyValue own ∨
        (places config (otherEntries state.entryTable keyValue.key)
          (reqEntries config keyValue.size)).Nonempty := by
  have hneeded : 0 < reqEntries config keyValue.size := reqEntries_pos hsize
  obtain ⟨before, after, htable, hmock, -⟩ := exists_split_of_firstIgnoringCase htaken
  have hmock' : withoutIgnoringCase state.entryTable keyValue.key =
      otherEntries state.entryTable keyValue.key := by
    rw [hmock, ← key_of_getEntry hget, inv.otherEntries_of_split htable]
  rw [RoomAtTwin, hmock']
  constructor
  · rintro (⟨-, hnearest⟩ | hplace)
    · left
      intro entry hmem
      obtain ⟨hother, hkey⟩ := inv.mem_otherEntries_iff.mp hmem
      have hne : own ≠ entry := by
        rintro rfl
        exact hkey (key_of_getEntry hget)
      have hpos := inv.slots_pos entry hother
      rcases inv.apart_of_mem (mem_of_getEntry hget) hother hne with hends | hends
      · have hownPos := inv.slots_pos own (mem_of_getEntry hget)
        have := hnearest entry hother (by omega)
        left
        omega
      · exact .inr hends
    · exact .inr hplace
  · rintro (hgrows | hplace)
    · by_cases hinside : own.number + reqEntries config keyValue.size ≤ config.totalEntries
      · right
        exact ⟨own.number, (mem_places_iff (inv.others_slots_pos _) hneeded).mpr
          ⟨hinside, hgrows⟩⟩
      · -- no entry behind the key leaves room for it to grow out of the storage
        left
        refine ⟨by omega, fun entry hmem hbehind => ?_⟩
        have hother : entry ∈ otherEntries state.entryTable keyValue.key := by
          rw [inv.mem_otherEntries_iff]
          refine ⟨hmem, fun hkey => ?_⟩
          have hfound := (inv.getEntry_eq_some_iff keyValue.key entry).mpr ⟨hmem, hkey⟩
          obtain rfl := Option.some.inj (hfound.symm.trans hget)
          omega
        have hend := inv.inside entry hmem
        have hpos := inv.slots_pos entry hmem
        rcases hgrows entry hother with hbefore | hafter
        · omega
        · omega
    · exact .inr hplace

/-- A stored key alone in its letters. -/
theorem placementsAgree_alone_iff
    (inv : TableInvariant config state.entryTable state.entriesLeft) {own : Entry}
    (hget : entryTableGetEntry state.entryTable keyValue.key = some own)
    (htaken : firstIgnoringCase state.entryTable keyValue.key = some own)
    (hentries : entryTableHasEntries config state keyValue = true) (hsize : 0 < keyValue.size) :
    PlacementsAgree config state keyValue ↔
      AgreesAlone config state.entryTable keyValue own := by
  have hsmaller : places config state.entryTable (reqEntries config keyValue.size) ⊆
      places config (otherEntries state.entryTable keyValue.key)
        (reqEntries config keyValue.size) :=
    places_mono fun _ => mem_otherEntries_subset
  rw [PlacementsAgree, inv.hasContinous_iff hget htaken hentries hsize,
    inv.roomAtTwin_own_iff hget htaken hsize, inv.nextEntry_place_iff hget hentries hsize]
  by_cases hgrows : GrowsFreely config state.entryTable keyValue own
  · constructor
    · intro hagree
      refine ⟨fun _ => ?_, fun hblocked => absurd hgrows hblocked⟩
      exact ((hagree.mp (.inl hgrows)).resolve_right fun h => h.1 hgrows).2
    · intro hagree
      exact iff_of_true (.inl hgrows) (.inl ⟨hgrows, hagree.inPlace hgrows⟩)
  · constructor
    · intro hagree
      refine ⟨fun h => absurd h hgrows, fun _ hplace => ?_⟩
      exact ((hagree.mp (.inr hplace)).resolve_left fun h => hgrows h.1).2
    · intro hagree
      constructor
      · rintro (h | hplace)
        · exact absurd h hgrows
        · exact .inr ⟨hgrows, hagree.elsewhere hgrows hplace⟩
      · rintro (h | ⟨-, hplace⟩)
        · exact absurd h.1 hgrows
        · exact .inr (hplace.mono hsmaller)

/-- A stored key with a twin before it. -/
theorem placementsAgree_twin_iff
    (inv : TableInvariant config state.entryTable state.entriesLeft) {own taken : Entry}
    (hget : entryTableGetEntry state.entryTable keyValue.key = some own)
    (htaken : firstIgnoringCase state.entryTable keyValue.key = some taken)
    (hentries : entryTableHasEntries config state keyValue = true) (hsize : 0 < keyValue.size) :
    PlacementsAgree config state keyValue ↔
      AgreesWithTwin config state.entryTable keyValue own taken := by
  have hsmaller : places config state.entryTable (reqEntries config keyValue.size) ⊆
      places config (withoutIgnoringCase state.entryTable keyValue.key)
        (reqEntries config keyValue.size) :=
    places_mono fun _ hmem => List.eraseP_subset hmem
  rw [PlacementsAgree, inv.hasContinous_iff hget htaken hentries hsize,
    inv.nextEntry_place_iff hget hentries hsize]
  by_cases hgrows : GrowsFreely config state.entryTable keyValue own
  · constructor
    · intro hagree
      refine ⟨fun _ => ⟨fun hinside => hagree.mpr (.inl ⟨hgrows, hinside⟩), fun hroom => ?_⟩,
        fun hblocked => absurd hgrows hblocked⟩
      exact ((hagree.mp hroom).resolve_right fun h => h.1 hgrows).2
    · intro hagree
      constructor
      · intro hroom
        exact .inl ⟨hgrows, (hagree.inPlace hgrows).mpr hroom⟩
      · rintro (h | h)
        · exact (hagree.inPlace hgrows).mp h.2
        · exact absurd hgrows h.1
  · constructor
    · intro hagree
      refine ⟨fun h => absurd h hgrows, fun _ hroom => ?_⟩
      exact ((hagree.mp hroom).resolve_left fun h => hgrows h.1).2
    · intro hagree
      constructor
      · intro hroom
        exact .inr ⟨hgrows, hagree.elsewhere hgrows hroom⟩
      · rintro (h | h)
        · exact absurd h.1 hgrows
        · exact .inr (h.2.mono hsmaller)

end TableInvariant

/-- A place that is promised and named, `instance_set` fills. -/
theorem instanceSetPlace_ne_error {state : InstanceState} {keyValue : KeyValue}
    (hagree : PlacementsAgree config state keyValue) :
    (instanceSetPlace config state keyValue).2 ≠ .error := by
  cases hcontinous : entryTableHasContinousEntries config state keyValue
  · rw [(instanceSetPlace_of_not_continous hcontinous).1]
    decide
  · obtain ⟨number, hnext, hplace⟩ := hagree.mp hcontinous
    obtain ⟨stored, hstored⟩ := Option.isSome_iff_exists.mp
      (storageSet_of_inside state (bytesOf keyValue.value) hplace.1)
    simp only [instanceSetPlace, hcontinous, Bool.not_true, Bool.false_eq_true, if_false, hnext,
      hstored]
    decide

/-- **The two searches agree** on a value exactly on the layouts described above, and on these
`instance_set` does not fail. -/
theorem placementsAgree_iff {mountPoint : CString} {state : InstanceState}
    (hplacing : PlacingState config mountPoint state) {keyValue : KeyValue}
    (hentries : entryTableHasEntries config state keyValue = true) (hsize : 0 < keyValue.size) :
    (PlacementsAgree config state keyValue ↔
      AgreeingLayout config state.entryTable keyValue) ∧
    (AgreeingLayout config state.entryTable keyValue →
      (instanceSetPlace config state keyValue).2 ≠ .error) := by
  have inv := hplacing.invariant.table
  have hiff : PlacementsAgree config state keyValue ↔
      AgreeingLayout config state.entryTable keyValue := by
    cases hget : entryTableGetEntry state.entryTable keyValue.key with
    | none =>
        refine iff_of_true (inv.placementsAgree_of_new hget hentries hsize) ?_
        intro own hmem hkey
        have habsent := entryTableGetEntry_eq_none_iff.mp hget
        exact absurd (hkey ▸ List.mem_map_of_mem hmem) habsent
    | some own =>
        have hmem := mem_of_getEntry hget
        have hkey := key_of_getEntry hget
        constructor
        · intro hagree other hother hotherKey taken htaken
          have hfound := (inv.getEntry_eq_some_iff keyValue.key other).mpr ⟨hother, hotherKey⟩
          obtain rfl := Option.some.inj (hget.symm.trans hfound)
          refine ⟨?_, fun _ => (inv.placementsAgree_twin_iff hget htaken hentries hsize).mp hagree⟩
          rintro rfl
          exact (inv.placementsAgree_alone_iff hget htaken hentries hsize).mp hagree
        · intro hlayout
          obtain ⟨taken, htaken⟩ : ∃ taken,
              firstIgnoringCase state.entryTable keyValue.key = some taken := by
            rw [← Option.isSome_iff_exists, firstIgnoringCase, List.isSome_find?, List.any_eq_true]
            exact ⟨own, hmem, by rw [hkey, stringEqualsIgnoreCase_self]⟩
          obtain ⟨halone, htwin⟩ := hlayout own hmem hkey taken htaken
          by_cases hsame : taken = own
          · subst hsame
            exact (inv.placementsAgree_alone_iff hget htaken hentries hsize).mpr (halone rfl)
          · exact (inv.placementsAgree_twin_iff hget htaken hentries hsize).mpr (htwin hsame)
  exact ⟨hiff, fun hlayout => instanceSetPlace_ne_error (hiff.mpr hlayout)⟩

/-- A key that has given up one of two slots grows into it again. -/
theorem placementsAgree_iff_grows :
    ∃ state, PlacingState threeEntries [] state ∧
      state.entryTable = [⟨0, 1, literal [97]⟩, ⟨2, 1, literal [98]⟩] ∧
      PlacementsAgree threeEntries state (keyValueCreate (literal [97]) (literal [120, 120])) := by
  obtain ⟨finish, hrun, hcheck⟩ := PartialStep.exists_run_of_execute (instanceStep threeEntries)
    (freshInstance threeEntries [])
    [.set ⟨true, literal [97], literal [120, 120], by decide, true⟩,
      .set ⟨true, literal [98], literal [120], by decide, true⟩,
      .set ⟨false, literal [97], literal [120], by decide, true⟩]
    (fun traced => decide (traced.state.entryTable =
        [⟨0, 1, literal [97]⟩, ⟨2, 1, literal [98]⟩]) &&
      entryTableHasEntries threeEntries traced.state
        (keyValueCreate (literal [97]) (literal [120, 120]))) (by decide +kernel)
  rw [Bool.and_eq_true, decide_eq_true_eq] at hcheck
  obtain ⟨htable, hentries⟩ := hcheck
  have hplacing : PlacingState threeEntries [] finish.state := .reached (.of_run hrun)
  have hagree := placementsAgree_iff hplacing hentries (by decide)
  refine ⟨finish.state, hplacing, htable, hagree.1.mpr ?_⟩
  rw [htable]
  intro own hmem hkey taken htaken
  obtain rfl : (⟨0, 1, literal [97]⟩ : Entry) = taken := Option.some.inj htaken
  obtain rfl : own = ⟨0, 1, literal [97]⟩ := by
    rcases List.mem_cons.mp hmem with rfl | hlast
    · rfl
    · obtain rfl := List.mem_singleton.mp hlast
      exact absurd hkey (by decide)
  have hfree : GrowsFreely threeEntries [⟨0, 1, literal [97]⟩, ⟨2, 1, literal [98]⟩]
      (keyValueCreate (literal [97]) (literal [120, 120])) ⟨0, 1, literal [97]⟩ := by
    intro entry hentry
    obtain rfl := List.mem_singleton.mp hentry
    left
    decide
  exact ⟨fun _ => ⟨fun _ => by decide, fun hblocked => absurd hfree hblocked⟩,
    fun hne => absurd rfl hne⟩

/-- The last key grows out of the storage: there is a free slot, but in front of it. -/
theorem not_placementsAgree :
    ¬ ∀ (config : Config) (mountPoint : CString) (state : InstanceState) (keyValue : KeyValue),
      InstanceReachable config mountPoint state →
      entryTableHasEntries config state keyValue = true → 0 < keyValue.size →
        PlacementsAgree config state keyValue := by
  intro hclaim
  obtain ⟨finish, hrun, hcheck⟩ := PartialStep.exists_run_of_execute (instanceStep threeEntries)
    (freshInstance threeEntries [])
    [.set ⟨true, literal [97], literal [120, 120], by decide, true⟩,
      .set ⟨true, literal [98], literal [120], by decide, true⟩,
      .set ⟨false, literal [97], literal [120], by decide, true⟩]
    (fun traced =>
      let keyValue := keyValueCreate (literal [98]) (literal [120, 120])
      entryTableHasEntries threeEntries traced.state keyValue &&
      entryTableHasContinousEntries threeEntries traced.state keyValue &&
      decide (entryTableNextEntry threeEntries traced.state keyValue = some 2)) (by decide +kernel)
  simp only [Bool.and_eq_true, decide_eq_true_eq] at hcheck
  obtain ⟨⟨hentries, hcontinous⟩, hnext⟩ := hcheck
  obtain ⟨number, hnumber, hplace⟩ :=
    (hclaim threeEntries [] finish.state _ (.of_run hrun) hentries (by decide)).mp hcontinous
  obtain rfl := Option.some.inj (hnext.symm.trans hnumber)
  exact absurd hplace.1 (by decide)

end SockMyPort.Instancia
