/-
# The ages of the atomic slots

The replacement by age reads the counters of the atomic slots. This module says when they
order some keys, the oldest first, and what the updates of both tables do to this order:
taking entries out keeps it, and writing a value puts its key at the end.
-/

import SockMyPort.Instancia.Coherence

namespace SockMyPort.Instancia

open SockMyPort.Commons Library

variable {config : Config}

/-! ## Reading slots -/

theorem statusAt_of_getElem? {table : List Status} {i : ℕ} {status : Status}
    (hstatus : table[i]? = some status) : statusAt table i = status := by
  simp [statusAt, hstatus]

theorem getElem?_of_atomic {table : List Status} {i : ℕ}
    (hatomic : (statusAt table i).status = .atomic) : table[i]? = some (statusAt table i) := by
  cases hstatus : table[i]? with
  | none =>
      simp only [statusAt, List.getD_eq_getElem?_getD, hstatus, Option.getD_none] at hatomic
      cases hatomic
  | some status => rw [statusAt_of_getElem? hstatus]

/-- A slot after a replacement. -/
theorem statusAt_of_evicts {before after : List Status} {keys : List CString}
    (hevicts : Evicts before after keys) (i : ℕ) :
    statusAt after i = statusAt before i ∨
      (statusAt before i).key ∈ keys ∧ statusAt after i = (statusAt before i).giveUp := by
  rcases hevicts.slots i with hsame | ⟨status, hbefore, -, hkey, hafter⟩
  · apply Or.inl
    simp only [statusAt, List.getD_eq_getElem?_getD, hsame]
  · apply Or.inr
    rw [statusAt_of_getElem? hbefore, statusAt_of_getElem? hafter]
    exact ⟨hkey, rfl⟩

/-- A slot after a value has been added. -/
theorem statusAt_add {keyValue : KeyValue} {table : List Status} {number : ℕ}
    (hsize : 0 < keyValue.size)
    (hinside : number + reqEntries config keyValue.size ≤ table.length) (i : ℕ) :
    statusAt (entryTableStatusAddKv config table keyValue (some number)) i =
      if number ≤ i ∧ i < number + reqEntries config keyValue.size then
        convertEntryToStatus config (convertKeyValueToEntry keyValue number)
      else (statusAt table i).age := by
  rw [entryTableStatusAddKv_eq hsize]
  by_cases hi : i < table.length
  · simp only [statusAt, List.getD_eq_getElem?_getD]
    rw [getElem?_replaceRun (by simpa using hi)]
    split
    · rfl
    · simp [hi]
  · rw [if_neg (by omega)]
    simp only [statusAt, List.getD_eq_getElem?_getD]
    rw [List.getElem?_eq_none (by simpa using hi), List.getElem?_eq_none (by simpa using hi)]
    rfl

/-- A slot after a key has been deleted. -/
theorem statusAt_delete (keyValue : KeyValue) (table : List Status) (i : ℕ) :
    statusAt (entryTableStatusDeleteKv config table keyValue) i =
      if deleteKvClears keyValue.key table (entryTableEntriesNeeded config keyValue) i then
        deletedStatus
      else statusAt table i := by
  simp only [statusAt, List.getD_eq_getElem?_getD, entryTableStatusDeleteKv,
    getElem?_deleteKvLoop]
  split <;> rfl

/-- A counter that is not the largest one counts. -/
theorem Status.age_lastReferenced {status : Status} (hatomic : status.status = .atomic)
    (hlow : 0 ≤ status.lastReferenced) (hhigh : status.lastReferenced + 1 < 2 ^ 31) :
    status.age.lastReferenced = status.lastReferenced + 1 := by
  have hused : status.status ≠ .free := by
    rw [hatomic]
    nofun
  simp only [Status.age, if_pos hused]
  exact Int.bmod_eq_of_le_mul_two (by omega) (by omega)

/-! ## Order by age -/

/-- How long ago the entry was referenced. -/
def Entry.lastReferenced (entry : Entry) (statuses : List Status) : ℤ :=
  (statusAt statuses entry.number).lastReferenced

/-- The first slot of a value that has been added. -/
theorem statusAt_add_own {keyValue : KeyValue} {statuses : List Status} {number : ℕ}
    (hsize : 0 < keyValue.size)
    (hinside : number + reqEntries config keyValue.size ≤ statuses.length) :
    statusAt (entryTableStatusAddKv config statuses keyValue (some number)) number =
      convertEntryToStatus config (convertKeyValueToEntry keyValue number) := by
  have hneeded : 0 < reqEntries config keyValue.size := reqEntries_pos hsize
  rw [statusAt_add hsize hinside, if_pos (by omega)]

theorem lastReferenced_add_own {keyValue : KeyValue} {statuses : List Status} {number : ℕ}
    (hsize : 0 < keyValue.size)
    (hinside : number + reqEntries config keyValue.size ≤ statuses.length) :
    (convertKeyValueToEntry keyValue number).lastReferenced
      (entryTableStatusAddKv config statuses keyValue (some number)) = 0 := by
  have hnew := statusAt_add_own hsize hinside
  simp only [Entry.lastReferenced, convertKeyValueToEntry] at hnew ⊢
  rw [hnew, convertEntryToStatus]
  split <;> rfl

/-- The slot of another entry only counts when a value is added where there was room. -/
theorem statusAt_add_other {keyValue : KeyValue} {statuses : List Status} {table : List Entry}
    {number : ℕ} {entry : Entry} (hsize : 0 < keyValue.size)
    (hinside : number + reqEntries config keyValue.size ≤ statuses.length)
    (hfree : FreeRun config table number (reqEntries config keyValue.size))
    (hmem : entry ∈ table) (hslots : 0 < entry.slots config) :
    statusAt (entryTableStatusAddKv config statuses keyValue (some number)) entry.number =
      (statusAt statuses entry.number).age := by
  have hapart := hfree entry hmem
  rw [statusAt_add hsize hinside, if_neg (by omega)]

variable (config) in
/-- An atomic entry of the first key was referenced longer ago than one of the second. -/
def Older (table : List Entry) (statuses : List Status) (older younger : CString) : Prop :=
  ∀ first ∈ table, ∀ second ∈ table, entryTableIsEntryAtomic config first = true →
    entryTableIsEntryAtomic config second = true → first.key = older → second.key = younger →
      second.lastReferenced statuses < first.lastReferenced statuses

variable (config) in
/-- The atomic slots are those of the atomic entries, but for some that will be written next,
and the counters of the keys of the order are below a limit and fall from key to key. -/
structure AgedInOrder (order : List CString) (limit : ℤ) (written : List ℕ) (table : List Entry)
    (statuses : List Status) : Prop where
  own : ∀ entry ∈ table, entryTableIsEntryAtomic config entry = true →
    (statusAt statuses entry.number).status = .atomic ∧
      (statusAt statuses entry.number).key = entry.key
  only : ∀ i ∉ written, (statusAt statuses i).status = .atomic →
    ∃ entry ∈ table, entryTableIsEntryAtomic config entry = true ∧ entry.number = i
  range : ∀ entry ∈ table, entryTableIsEntryAtomic config entry = true → entry.key ∈ order →
    0 ≤ entry.lastReferenced statuses ∧ entry.lastReferenced statuses < limit
  aged : order.Pairwise (Older config table statuses)

namespace AgedInOrder

variable {order : List CString} {limit : ℤ} {written : List ℕ} {table : List Entry}
  {statuses : List Status} {left : ℤ}

theorem sublist (h : AgedInOrder config order limit written table statuses)
    {smaller : List CString} (hsub : smaller.Sublist order) :
    AgedInOrder config smaller limit written table statuses where
  own := h.own
  only := h.only
  range entry hmem hatomic hkey := h.range entry hmem hatomic (hsub.subset hkey)
  aged := h.aged.sublist hsub

theorem mono (h : AgedInOrder config order limit written table statuses) {limit' : ℤ}
    (hle : limit ≤ limit') : AgedInOrder config order limit' written table statuses where
  own := h.own
  only := h.only
  range entry hmem hatomic hkey := by
    obtain ⟨hlow, hhigh⟩ := h.range entry hmem hatomic hkey
    exact ⟨hlow, hhigh.trans_le hle⟩
  aged := h.aged

/-- The atomic slots alone. -/
theorem forget (h : AgedInOrder config order limit written table statuses) (limit' : ℤ) :
    AgedInOrder config [] limit' written table statuses where
  own := h.own
  only := h.only
  range _ _ _ hkey := by cases hkey
  aged := .nil

/-- The status of a slot whose key is that of an atomic entry is the status of the entry. -/
theorem number_eq (h : AgedInOrder config order limit [] table statuses)
    (inv : TableInvariant config table left) {i : ℕ}
    (hatomic : (statusAt statuses i).status = .atomic) {entry : Entry} (hmem : entry ∈ table)
    (hkey : (statusAt statuses i).key = entry.key) :
    entryTableIsEntryAtomic config entry = true ∧ entry.number = i := by
  obtain ⟨other, hother, hotherAtomic, rfl⟩ := h.only i (by simp) hatomic
  have hsame : other = entry := by
    apply List.inj_on_of_nodup_map inv.keysDistinct hother hmem
    rw [← (h.own other hother hotherAtomic).2, hkey]
  rw [← hsame]
  exact ⟨hotherAtomic, rfl⟩

/-- Taking entries out, with the slots of the others as they were. -/
theorem restrict (h : AgedInOrder config order limit [] table statuses) {kept : List Entry}
    {after : List Status} (hkept : ∀ entry ∈ kept, entry ∈ table)
    (hsame : ∀ entry ∈ kept, entryTableIsEntryAtomic config entry = true →
      statusAt after entry.number = statusAt statuses entry.number)
    (honly : ∀ i ∉ written, (statusAt after i).status = .atomic →
      ∃ entry ∈ kept, entryTableIsEntryAtomic config entry = true ∧ entry.number = i) :
    AgedInOrder config order limit written kept after where
  own entry hmem hatomic := by
    rw [hsame entry hmem hatomic]
    exact h.own entry (hkept entry hmem) hatomic
  only := honly
  range entry hmem hatomic hkey := by
    simp only [Entry.lastReferenced, hsame entry hmem hatomic]
    exact h.range entry (hkept entry hmem) hatomic hkey
  aged := by
    apply h.aged.imp
    intro older younger haged first hfirst second hsecond hatomic hatomic' hkey hkey'
    simp only [Entry.lastReferenced, hsame first hfirst hatomic, hsame second hsecond hatomic']
    exact haged first (hkept first hfirst) second (hkept second hsecond) hatomic hatomic' hkey
      hkey'

/-- A replacement. -/
theorem evict (h : AgedInOrder config order limit [] table statuses)
    (inv : TableInvariant config table left) {kept : List Entry} {after : List Status}
    {replacedKeys evicted : List CString} (hevicts : Evicts statuses after evicted)
    (habsent : ∀ key ∈ replacedKeys, entryTableGetEntry table key = none)
    (hkept : ∀ entry, entry ∈ kept ↔ entry ∈ table ∧ entry.key ∉ replacedKeys ++ evicted) :
    AgedInOrder config order limit [] kept after := by
  apply h.restrict
  · intro entry hmem
    exact ((hkept entry).mp hmem).1
  · intro entry hmem hatomic
    obtain ⟨htable, hlisted⟩ := (hkept entry).mp hmem
    rcases statusAt_of_evicts hevicts entry.number with hsame | ⟨hkey, -⟩
    · exact hsame
    · rw [(h.own entry htable hatomic).2] at hkey
      exact absurd (List.mem_append_right _ hkey) hlisted
  · intro i _ hatomic
    rcases statusAt_of_evicts hevicts i with hsame | ⟨-, hused⟩
    · have hbefore : (statusAt statuses i).status = .atomic := by rw [← hsame, hatomic]
      obtain ⟨entry, hmem, hentry, hnumber⟩ := h.only i (by simp) hbefore
      refine ⟨entry, (hkept entry).mpr ⟨hmem, fun hlisted => ?_⟩, hentry, hnumber⟩
      rcases List.mem_append.mp hlisted with hearlier | hevicted
      · have hnone := habsent entry.key hearlier
        rw [entryTableGetEntry_eq_none_iff] at hnone
        exact hnone (List.mem_map_of_mem hmem)
      · -- the slot of an evicted key is not atomic any more
        obtain ⟨j, status, hslot, hstatus, hname, hused⟩ := hevicts.keys entry.key hevicted
        rw [← statusAt_of_getElem? hslot] at hstatus hname
        obtain ⟨-, rfl⟩ := h.number_eq inv hstatus hmem hname
        rw [← hnumber, statusAt_of_getElem? hused] at hatomic
        cases hatomic
    · rw [hused] at hatomic
      cases hatomic

/-- Deleting a key that clears no atomic slot of another key, and the slot of the key unless it
will be written next. -/
theorem delete (h : AgedInOrder config order limit [] table statuses)
    (inv : TableInvariant config table left) {keyValue : KeyValue}
    (hothers : ∀ entry ∈ table, entryTableIsEntryAtomic config entry = true →
      entry.key ≠ keyValue.key → deleteKvClears keyValue.key statuses
        (entryTableEntriesNeeded config keyValue) entry.number = false)
    (hown : ∀ entry ∈ table, entryTableIsEntryAtomic config entry = true →
      entry.key = keyValue.key → deleteKvClears keyValue.key statuses
        (entryTableEntriesNeeded config keyValue) entry.number = true ∨ entry.number ∈ written) :
    AgedInOrder config order limit written (otherEntries table keyValue.key)
      (entryTableStatusDeleteKv config statuses keyValue) := by
  apply h.restrict
  · intro entry hmem
    exact (inv.mem_otherEntries_iff.mp hmem).1
  · intro entry hmem hatomic
    obtain ⟨htable, hkey⟩ := inv.mem_otherEntries_iff.mp hmem
    rw [statusAt_delete, hothers entry htable hatomic hkey]
    rfl
  · intro i hi hatomic
    rw [statusAt_delete] at hatomic
    split at hatomic
    · cases hatomic
    · rename_i hkept
      obtain ⟨entry, htable, hentry, rfl⟩ := h.only i (by simp) hatomic
      refine ⟨entry, inv.mem_otherEntries_iff.mpr ⟨htable, fun hkey => ?_⟩, hentry, rfl⟩
      rcases hown entry htable hentry hkey with hcleared | hnext
      · exact hkept hcleared
      · exact hi hnext

/-- The counter of a listed key that does not reach the end counts. -/
theorem age_lastReferenced (h : AgedInOrder config order limit written table statuses)
    {entry : Entry} (hmem : entry ∈ table) (hatomic : entryTableIsEntryAtomic config entry = true)
    (hkey : entry.key ∈ order) (hlt : entry.lastReferenced statuses + 1 < 2 ^ 31) :
    (statusAt statuses entry.number).age.lastReferenced = entry.lastReferenced statuses + 1 :=
  Status.age_lastReferenced (h.own entry hmem hatomic).1 (h.range entry hmem hatomic hkey).1 hlt

/-- Writing a value whose key has no other entry puts the key at the end. -/
theorem write (h : AgedInOrder config order limit written table statuses) {result : List Entry}
    {keyValue : KeyValue} {number : ℕ} (limit' : ℤ) (hsize : 0 < keyValue.size)
    (hperm : result.Perm (convertKeyValueToEntry keyValue number :: table))
    (hfresh : ∀ entry ∈ table, entry.key ≠ keyValue.key)
    (hslots : ∀ entry ∈ table, 0 < entry.slots config)
    (hfree : FreeRun config table number (reqEntries config keyValue.size))
    (hinside : number + reqEntries config keyValue.size ≤ statuses.length)
    (hwritten : ∀ i ∈ written, number ≤ i ∧ i < number + reqEntries config keyValue.size)
    (hpos : 0 < limit') (hlimit : limit' ≤ 2 ^ 31)
    (hages : ∀ entry ∈ table, entryTableIsEntryAtomic config entry = true → entry.key ∈ order →
      entry.lastReferenced statuses + 1 < limit') :
    AgedInOrder config (order.filter (· ≠ keyValue.key) ++ [keyValue.key]) limit' [] result
      (entryTableStatusAddKv config statuses keyValue (some number)) := by
  have hneeded : 0 < reqEntries config keyValue.size := reqEntries_pos hsize
  have hnew : statusAt (entryTableStatusAddKv config statuses keyValue (some number)) number =
      convertEntryToStatus config (convertKeyValueToEntry keyValue number) :=
    statusAt_add_own hsize hinside
  have hnewAge : (convertKeyValueToEntry keyValue number).lastReferenced
      (entryTableStatusAddKv config statuses keyValue (some number)) = 0 :=
    lastReferenced_add_own hsize hinside
  have hother : ∀ entry ∈ table,
      statusAt (entryTableStatusAddKv config statuses keyValue (some number)) entry.number =
        (statusAt statuses entry.number).age := fun entry hmem =>
    statusAt_add_other hsize hinside hfree hmem (hslots entry hmem)
  have hotherAge : ∀ entry ∈ table, entryTableIsEntryAtomic config entry = true →
      entry.key ∈ order →
      entry.lastReferenced (entryTableStatusAddKv config statuses keyValue (some number)) =
        entry.lastReferenced statuses + 1 := by
    intro entry hmem hatomic hkey
    rw [Entry.lastReferenced, hother entry hmem]
    exact h.age_lastReferenced hmem hatomic hkey ((hages entry hmem hatomic hkey).trans_le hlimit)
  have hmemResult : ∀ entry ∈ result,
      entry = convertKeyValueToEntry keyValue number ∨ entry ∈ table := by
    intro entry hmem
    exact List.mem_cons.mp (hperm.mem_iff.mp hmem)
  have holder : ∀ entry ∈ result, entry.key ≠ keyValue.key → entry ∈ table := by
    intro entry hmem hkey
    rcases hmemResult entry hmem with rfl | hold
    · exact absurd rfl hkey
    · exact hold
  constructor
  case own =>
    intro entry hmem hatomic
    rcases hmemResult entry hmem with rfl | hold
    · obtain ⟨hname, hstatus, -⟩ := convertEntryToStatus_spec config
        (convertKeyValueToEntry keyValue number)
      simp only [convertKeyValueToEntry] at hnew hname hstatus hatomic ⊢
      rw [hnew]
      exact ⟨hstatus.mpr hatomic, hname⟩
    · rw [hother entry hold, Status.age_status, Status.age_key]
      exact h.own entry hold hatomic
  case only =>
    intro i _ hatomic
    rw [statusAt_add hsize hinside] at hatomic
    split at hatomic
    · rename_i hrun
      have hentry := (convertEntryToStatus_spec config _).2.1.mp hatomic
      have hone := reqEntries_of_atomic hentry hsize
      refine ⟨_, hperm.mem_iff.mpr (List.mem_cons_self ..), hentry, ?_⟩
      simp only [convertKeyValueToEntry] at hone ⊢
      omega
    · rename_i hrun
      rw [Status.age_status] at hatomic
      obtain ⟨entry, hmem, hentry, hnumber⟩ := h.only i (fun hmem => hrun (hwritten i hmem)) hatomic
      exact ⟨entry, hperm.mem_iff.mpr (List.mem_cons_of_mem _ hmem), hentry, hnumber⟩
  case range =>
    intro entry hmem hatomic hkey
    rcases hmemResult entry hmem with rfl | hold
    · rw [hnewAge]
      exact ⟨le_refl 0, hpos⟩
    · have hlisted : entry.key ∈ order := by
        rcases List.mem_append.mp hkey with hkept | hlast
        · exact (List.mem_filter.mp hkept).1
        · exact absurd (List.mem_singleton.mp hlast) (hfresh entry hold)
      rw [hotherAge entry hold hatomic hlisted]
      obtain ⟨hlow, -⟩ := h.range entry hold hatomic hlisted
      exact ⟨by omega, hages entry hold hatomic hlisted⟩
  case aged =>
    apply List.pairwise_append.mpr
    refine ⟨?_, List.pairwise_singleton _ _, ?_⟩
    · -- both keys had counters, and both count
      apply (h.aged.filter _).imp_of_mem
      intro older younger holderMem hyoungerMem haged first hfirst second hsecond hatomic hatomic'
        hkey hkey'
      obtain ⟨hlisted, hne⟩ := List.mem_filter.mp holderMem
      obtain ⟨hlisted', hne'⟩ := List.mem_filter.mp hyoungerMem
      simp only [ne_eq, decide_not, Bool.not_eq_true', decide_eq_false_iff_not] at hne hne'
      have hfirst' := holder first hfirst (by rwa [hkey])
      have hsecond' := holder second hsecond (by rwa [hkey'])
      rw [hotherAge first hfirst' hatomic (by rwa [hkey]),
        hotherAge second hsecond' hatomic' (by rwa [hkey'])]
      have := haged first hfirst' second hsecond' hatomic hatomic' hkey hkey'
      omega
    · intro older holderMem younger hyoungerMem first hfirst second hsecond hatomic hatomic' hkey
        hkey'
      obtain ⟨hlisted, hne⟩ := List.mem_filter.mp holderMem
      obtain rfl := List.mem_singleton.mp hyoungerMem
      simp only [ne_eq, decide_not, Bool.not_eq_true', decide_eq_false_iff_not] at hne
      have hfirst' := holder first hfirst (by rwa [hkey])
      have hsecond' : second = convertKeyValueToEntry keyValue number := by
        rcases hmemResult second hsecond with heq | hold
        · exact heq
        · exact absurd hkey' (hfresh second hold)
      rw [hsecond', hnewAge, hotherAge first hfirst' hatomic (by rwa [hkey])]
      obtain ⟨hlow, -⟩ := h.range first hfirst' hatomic (by rwa [hkey])
      omega

end AgedInOrder

end SockMyPort.Instancia
