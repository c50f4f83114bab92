/-
# What compaction does

Every turn of the compaction takes one entry out and puts it back at the first
place where it fits, with its bytes. A turn therefore keeps the invariant and
the contents, whichever entry it picks. When the turns walk through the table
in order, the entries that they have passed are packed at the beginning of the
storage, so that in the end all free slots are behind the last entry.
-/

import SockMyPort.Instancia.Placement
import SockMyPort.Instancia.Compactation

namespace SockMyPort.Instancia

open SockMyPort.Commons Library

variable {config : Config}

/-! ## One turn -/

variable (config) in
/-- The instance after an entry has been taken out of both tables. -/
def takeOut (state : InstanceState) (entry : Entry) : InstanceState :=
  { state with
    entryTable := otherEntries state.entryTable entry.key
    entriesLeft := state.entriesLeft + entry.slots config
    entryTableStatusGlobal := entryTableStatusDeleteKv config state.entryTableStatusGlobal
      (keyValueGenerator entry.key entry.size) }

variable (config) in
/-- The instance after an entry has been put back at a place. -/
def putBack (state : InstanceState) (entry : Entry) (nextEntry : ℕ) : InstanceState :=
  let keyValue := keyValueGenerator entry.key entry.size
  { entryTableInsert config
      { takeOut config state entry with
        storage := writeCells state.storage (nextEntry * config.entrySize)
          (storageRetrieve config state entry.number entry.size) } nextEntry keyValue with
    entryTableStatusGlobal :=
      entryTableStatusAddKv config (takeOut config state entry).entryTableStatusGlobal keyValue
        nextEntry }

theorem entryTableInsert_storage (state : InstanceState) (storage : List UInt8)
    (nextEntry : ℕ) (keyValue : KeyValue) :
    entryTableInsert config { state with storage := storage } nextEntry keyValue =
      { entryTableInsert config state nextEntry keyValue with storage := storage } := by
  simp only [entryTableInsert]
  cases entryTableGetEntry state.entryTable keyValue.key with
  | none => rfl
  | some entry =>
      by_cases hplace : nextEntry = entry.number
      · simp only [hplace, if_true]
      · simp only [hplace, if_false]

theorem entryTableInsert_statuses (state : InstanceState) (nextEntry : ℕ) (keyValue : KeyValue) :
    (entryTableInsert config state nextEntry keyValue).entryTableStatusGlobal =
      state.entryTableStatusGlobal := by
  obtain ⟨table, heq, -, -⟩ := entryTableInsert_eq config state nextEntry keyValue
  rw [heq]

namespace InstanceInvariant

variable {state : InstanceState}

theorem getEntry_of_mem (inv : InstanceInvariant config state) {entry : Entry}
    (hmem : entry ∈ state.entryTable) :
    entryTableGetEntry state.entryTable entry.key = some entry :=
  (inv.table.getEntry_eq_some_iff _ _).mpr ⟨hmem, rfl⟩

theorem takeOut (inv : InstanceInvariant config state) {entry : Entry}
    (hmem : entry ∈ state.entryTable) : InstanceInvariant config (takeOut config state entry) := by
  have hkey := keyValueGenerator_key entry.size (inv.table.keyShort entry hmem)
  have hget := inv.getEntry_of_mem hmem
  have hdeleted := inv.table.entryTableDelete (keyValueGenerator entry.key entry.size)
  rw [entryTableDelete_of_some (by rw [hkey]; exact hget), hkey] at hdeleted
  exact ⟨hdeleted, inv.storage_length, inv.statuses.delete _⟩

theorem contents_takeOut (inv : InstanceInvariant config state) (entry : Entry) :
    contents config (Instancia.takeOut config state entry) =
      Function.update (contents config state) entry.key none :=
  (contents_congr rfl rfl).trans
    (inv.contents_otherEntries entry.key (state.entriesLeft + entry.slots config))

/-- The run that an entry leaves is free. -/
theorem freeRun_takeOut (inv : InstanceInvariant config state) {entry : Entry}
    (hmem : entry ∈ state.entryTable) :
    FreeRun config (otherEntries state.entryTable entry.key) entry.number
      (entry.slots config) := by
  intro other hother
  obtain ⟨hother, hkey⟩ := inv.table.mem_otherEntries_iff.mp hother
  exact inv.table.apart_of_mem hmem hother fun h => hkey (h ▸ rfl)

/-- A turn finds a place, and puts the entry back there. -/
theorem compactEntry_eq (inv : InstanceInvariant config state) {entry : Entry}
    (hmem : entry ∈ state.entryTable) :
    ∃ nextEntry,
      searchGap config (entry.slots config) (otherEntries state.entryTable entry.key) =
        some nextEntry ∧
      nextEntry + entry.slots config ≤ config.totalEntries ∧
      compactEntry config state entry = putBack config state entry nextEntry := by
  have hkey := keyValueGenerator_key entry.size (inv.table.keyShort entry hmem)
  have hget := inv.getEntry_of_mem hmem
  have hout := inv.takeOut hmem
  have hentry := inv.table.inside entry hmem
  have hsome := hout.table.searchGap_complete (inv.table.slots_pos entry hmem)
    (inv.freeRun_takeOut hmem) hentry
  obtain ⟨nextEntry, hsearch⟩ := Option.isSome_iff_exists.mp hsome
  have hinside : nextEntry + entry.slots config ≤ config.totalEntries := by
    by_cases hempty : otherEntries state.entryTable entry.key = []
    · simp only [Instancia.takeOut, hempty, searchGap, Option.some.injEq] at hsearch
      omega
    · exact (hout.table.searchGap_sound hsearch).2 hempty
  refine ⟨nextEntry, hsearch, hinside, ?_⟩
  have hdelete : entryTableDelete config state (keyValueGenerator entry.key entry.size) =
      { state with
        entryTable := otherEntries state.entryTable entry.key
        entriesLeft := state.entriesLeft + entry.slots config } := by
    rw [entryTableDelete_of_some (by rw [hkey]; exact hget), hkey]
  have hfits : entryTableHaveEntries config (Instancia.takeOut config state entry)
      (keyValueGenerator entry.key entry.size) = true := by
    have := inv.table.left_nonneg
    simp only [entryTableHaveEntries, entryTableEntriesNeeded_eq, keyValueGenerator_size,
      Instancia.takeOut, Entry.slots, decide_eq_true_eq]
    omega
  have hnext : entryTableNextEntry config (Instancia.takeOut config state entry)
      (keyValueGenerator entry.key entry.size) = some nextEntry := by
    rw [TableInvariant.nextEntry_of_new (by
      rw [hkey]
      simp only [Instancia.takeOut, inv.table.getEntry_otherEntries, if_true]) hfits]
    simpa using hsearch
  have hbytes : ¬ nextEntry * config.entrySize + entry.size >
      config.totalEntries * config.entrySize := by
    have hsize := le_reqEntries_mul config entry.size
    have := Nat.mul_le_mul_right config.entrySize hinside
    rw [Nat.add_mul] at this
    simp only [Entry.slots] at this
    omega
  have hlength : (storageRetrieve config state entry.number entry.size).take entry.size =
      storageRetrieve config state entry.number entry.size :=
    List.take_of_length_le (length_readCells (inv.bytes_inside hmem)).le
  simp only [compactEntry, hdelete]
  rw [show ({ state with
      entryTable := otherEntries state.entryTable entry.key
      entriesLeft := state.entriesLeft + entry.slots config
      entryTableStatusGlobal := entryTableStatusDeleteKv config state.entryTableStatusGlobal
        (keyValueGenerator entry.key entry.size) } : InstanceState) =
      Instancia.takeOut config state entry from rfl, hnext]
  simp only [storageSet, hbytes, if_false, Option.getD_some, hlength, putBack,
    entryTableInsert_storage, entryTableInsert_statuses]
  obtain ⟨table, heq, -, -⟩ := entryTableInsert_eq config
    (Instancia.takeOut config state entry) nextEntry (keyValueGenerator entry.key entry.size)
  rw [heq]
  rfl

/-- A turn keeps the invariant, the contents and the number of free entries. -/
theorem compactEntry (inv : InstanceInvariant config state) {entry : Entry}
    (hmem : entry ∈ state.entryTable) :
    InstanceInvariant config (compactEntry config state entry) ∧
      contents config (Instancia.compactEntry config state entry) = contents config state ∧
      (Instancia.compactEntry config state entry).entriesLeft = state.entriesLeft := by
  obtain ⟨nextEntry, hsearch, hinside, heq⟩ := inv.compactEntry_eq hmem
  have hkey := keyValueGenerator_key entry.size (inv.table.keyShort entry hmem)
  have hget := inv.getEntry_of_mem hmem
  have hout := inv.takeOut hmem
  have hgone : otherEntries (otherEntries state.entryTable entry.key) entry.key =
      otherEntries state.entryTable entry.key :=
    otherEntries_of_none (by simp [inv.table.getEntry_otherEntries])
  have hlength : (storageRetrieve config state entry.number entry.size).length = entry.size :=
    length_readCells (inv.bytes_inside hmem)
  have hset : storageSet config (Instancia.takeOut config state entry) nextEntry
      (storageRetrieve config state entry.number entry.size) entry.size =
        some { Instancia.takeOut config state entry with
          storage := writeCells state.storage (nextEntry * config.entrySize)
            (storageRetrieve config state entry.number entry.size) } := by
    have hsize := le_reqEntries_mul config entry.size
    have := Nat.mul_le_mul_right config.entrySize hinside
    rw [Nat.add_mul] at this
    rw [storageSet, if_neg (by simp only [Entry.slots] at this; omega),
      List.take_of_length_le hlength.le]
    rfl
  rw [heq]
  have hplaced := hout.place (keyValueGenerator entry.key entry.size)
    (entryTableStatusAddKv config (Instancia.takeOut config state entry).entryTableStatusGlobal
      (keyValueGenerator entry.key entry.size) nextEntry)
    (by simpa using hlength) (by simpa using inv.table.nonempty entry hmem)
    (by
      simp only [hkey, keyValueGenerator_size, Instancia.takeOut, hgone]
      exact (hout.table.searchGap_sound hsearch).1)
    (by simpa using hset)
    (hout.statuses.add (by simpa using inv.table.nonempty entry hmem) nextEntry)
  refine ⟨hplaced.1, hplaced.2.trans ?_, ?_⟩
  · rw [inv.contents_takeOut, hkey, Function.update_idem, Function.update_eq_self_iff]
    simp only [contents, hget, Option.map_some]
  · obtain ⟨table, hinsert, -, -⟩ := entryTableInsert_eq config
      { Instancia.takeOut config state entry with
        storage := writeCells state.storage (nextEntry * config.entrySize)
          (storageRetrieve config state entry.number entry.size) } nextEntry
      (keyValueGenerator entry.key entry.size)
    simp only [putBack, hinsert]
    rw [entryTableDelete_of_none (by
      rw [hkey]
      simp [Instancia.takeOut, inv.table.getEntry_otherEntries])]
    simp [Instancia.takeOut]

theorem compactTurn (inv : InstanceInvariant config state) (i : ℕ) :
    InstanceInvariant config (compactTurn config state i) ∧
      contents config (Instancia.compactTurn config state i) = contents config state ∧
      (Instancia.compactTurn config state i).entriesLeft = state.entriesLeft := by
  simp only [Instancia.compactTurn]
  split
  · rename_i entry hentry
    exact inv.compactEntry (List.mem_of_getElem? hentry)
  · exact ⟨inv, rfl, rfl⟩

theorem compactTurns (inv : InstanceInvariant config state) (turns : ℕ) :
    InstanceInvariant config (compactTurns config state turns) ∧
      contents config (Instancia.compactTurns config state turns) = contents config state ∧
      (Instancia.compactTurns config state turns).entriesLeft = state.entriesLeft := by
  induction turns with
  | zero => exact ⟨inv, rfl, rfl⟩
  | succ turns ih =>
      obtain ⟨hinv, hcontents, hleft⟩ := ih
      obtain ⟨hinv', hcontents', hleft'⟩ := hinv.compactTurn turns
      exact ⟨hinv', hcontents'.trans hcontents, hleft'.trans hleft⟩

/-- **Compaction keeps the contents.** -/
theorem compactationCompact (inv : InstanceInvariant config state) :
    InstanceInvariant config (compactationCompact config state) ∧
      contents config (Instancia.compactationCompact config state) = contents config state ∧
      (Instancia.compactationCompact config state).entriesLeft = state.entriesLeft :=
  inv.compactTurns state.entryTable.length

end InstanceInvariant

/-! ## Packed entries -/

variable (config) in
/-- The entries one after another, from a given slot on. -/
def packFrom : ℕ → List Entry → List Entry
  | _, [] => []
  | start, entry :: entries =>
      { entry with number := start } :: packFrom (start + entry.slots config) entries

theorem packFrom_append (start : ℕ) (first second : List Entry) :
    packFrom config start (first ++ second) =
      packFrom config start first ++
        packFrom config (start + occupied (Entry.slots config) first) second := by
  induction first generalizing start with
  | nil => simp [packFrom]
  | cons entry first ih =>
      simp only [List.cons_append, packFrom, ih, occupied_cons, Nat.add_assoc]

@[simp]
theorem length_packFrom (start : ℕ) (entries : List Entry) :
    (packFrom config start entries).length = entries.length := by
  induction entries generalizing start with
  | nil => rfl
  | cons entry entries ih => simp only [packFrom, List.length_cons, ih]

/-- Packing moves the entries only. -/
theorem exists_of_mem_packFrom {start : ℕ} {entries : List Entry} {entry : Entry}
    (hmem : entry ∈ packFrom config start entries) :
    ∃ original ∈ entries, entry.key = original.key ∧ entry.size = original.size := by
  induction entries generalizing start with
  | nil => cases hmem
  | cons first entries ih =>
      rcases List.mem_cons.mp hmem with rfl | hmem
      · exact ⟨first, List.mem_cons_self .., rfl, rfl⟩
      · obtain ⟨original, horiginal, hsame⟩ := ih hmem
        exact ⟨original, List.mem_cons_of_mem _ horiginal, hsame⟩

@[simp]
theorem occupied_packFrom (start : ℕ) (entries : List Entry) :
    occupied (Entry.slots config) (packFrom config start entries) =
      occupied (Entry.slots config) entries := by
  induction entries generalizing start with
  | nil => rfl
  | cons entry entries ih => simp only [packFrom, occupied_cons, ih]

/-- The last packed entry ends where all of them together end. -/
theorem getLast_packFrom_end (config : Config) (start : ℕ) (entries : List Entry)
    (hne : packFrom config start entries ≠ []) :
    ((packFrom config start entries).getLast hne).number +
        ((packFrom config start entries).getLast hne).slots config =
      start + occupied (Entry.slots config) entries := by
  induction entries generalizing start with
  | nil => exact absurd rfl hne
  | cons entry entries ih =>
      cases entries with
      | nil => simp [packFrom]
      | cons next entries =>
          have hrest := ih (start + entry.slots config) (by simp [packFrom])
          simp only [packFrom, List.getLast_cons_cons] at hrest ⊢
          rw [hrest]
          simp only [occupied_cons]
          omega

/-- There is no gap between packed entries; the first one is before the entry
that follows them. -/
theorem gapBetween_packFrom (config : Config) {needed : ℕ} (hneeded : 0 < needed) (start : ℕ)
    (entry : Entry)
    (entries : List Entry) :
    gapBetween config needed (packFrom config start (entry :: entries)) = none ∧
      ∀ next rest,
        start + occupied (Entry.slots config) (entry :: entries) + needed ≤ next.number →
        gapBetween config needed (packFrom config start (entry :: entries) ++ next :: rest) =
          some (start + occupied (Entry.slots config) (entry :: entries)) := by
  induction entries generalizing start entry with
  | nil =>
      refine ⟨rfl, fun next rest hroom => ?_⟩
      simp only [packFrom, occupied_cons, occupied_nil, Nat.add_zero, List.cons_append,
        List.nil_append, gapBetween] at hroom ⊢
      rw [if_pos (by simp only [Entry.slots] at *; omega)]
  | cons second entries ih =>
      obtain ⟨hnone, hsome⟩ := ih (start + entry.slots config) second
      simp only [packFrom, List.cons_append, gapBetween, Entry.slots] at hnone hsome ⊢
      have hadjacent : ¬ (((start + reqEntries config entry.size : ℕ) : ℤ) -
          ((start + reqEntries config entry.size : ℕ) : ℤ) ≥ needed) := by
        omega
      rw [if_neg hadjacent]
      refine ⟨hnone, fun next rest hroom => ?_⟩
      rw [if_neg hadjacent]
      simp only [occupied_cons, Nat.add_assoc] at hroom hsome ⊢
      exact hsome next rest (by omega)

theorem end_le_of_mem_packFrom {start : ℕ} {entries : List Entry} {entry : Entry}
    (hmem : entry ∈ packFrom config start entries) :
    entry.number + entry.slots config ≤ start + occupied (Entry.slots config) entries := by
  induction entries generalizing start with
  | nil => cases hmem
  | cons first entries ih =>
      simp only [occupied_cons]
      rcases List.mem_cons.mp hmem with rfl | hmem
      · simp only [Entry.slots]
        omega
      · have := ih hmem
        omega

/-- Strictly ordered tables with the same entries are equal. -/
theorem eq_of_perm_of_numbers_lt {first second : List Entry} (hperm : first.Perm second)
    (hfirst : first.Pairwise fun entry other => entry.number < other.number)
    (hsecond : second.Pairwise fun entry other => entry.number < other.number) :
    first = second := by
  apply hperm.eq_of_pairwise _ hfirst hsecond
  intro entry other _ _ hlt hgt
  exact absurd hlt (Nat.lt_asymm hgt)

/-! ## The whole walk -/

namespace InstanceInvariant

variable {state : InstanceState}

/-- When the entries before it are packed, an entry goes right behind them. -/
theorem searchGap_packed {before after : List Entry} {entry : Entry}
    (inv : InstanceInvariant config state)
    (htable : state.entryTable = packFrom config 0 before ++ entry :: after) {nextEntry : ℕ}
    (hsearch : searchGap config (entry.slots config) (packFrom config 0 before ++ after) =
      some nextEntry) : nextEntry = occupied (Entry.slots config) before := by
  have hsep := inv.table.separated
  have hinside := inv.table.inside entry (by simp [htable])
  have hpos := inv.table.slots_pos entry (by simp [htable])
  rw [htable] at hsep
  obtain ⟨hpacked, hrest, hcross⟩ := List.pairwise_append.mp hsep
  have hafter := (List.pairwise_cons.mp hrest).1
  have hbehind : occupied (Entry.slots config) before ≤ entry.number := by
    have := Separated.occupied_le hpacked (Nat.zero_le entry.number) (fun _ _ => Nat.zero_le _)
      fun other hmem => hcross other hmem entry (by simp)
    simpa using this
  cases before with
  | nil =>
      cases after with
      | nil => simpa [packFrom, searchGap, eq_comm] using hsearch
      | cons next after =>
          have := hafter next (by simp)
          simp only [packFrom, List.nil_append, searchGap] at hsearch
          rw [if_pos (by omega)] at hsearch
          simpa [eq_comm] using hsearch
  | cons first before =>
      obtain ⟨hnone, hsome⟩ := gapBetween_packFrom config hpos 0 first before
      simp only [packFrom, List.cons_append] at hsearch hnone hsome
      simp only [searchGap, Nat.lt_irrefl, false_and, if_false] at hsearch
      cases after with
      | nil =>
          rw [List.append_nil, hnone] at hsearch
          have hend := getLast_packFrom_end config 0 (first :: before) (by simp [packFrom])
          simp only [packFrom, Entry.slots, Nat.zero_add] at hend
          simp only [Entry.slots, Nat.zero_add] at hsearch
          rw [hend] at hsearch
          split at hsearch
          · exact (Option.some.inj hsearch).symm
          · cases hsearch
      | cons next after =>
          have hnext := hafter next (by simp)
          rw [hsome next after (by omega)] at hsearch
          simpa [eq_comm] using hsearch

/-- One turn packs one more entry. -/
theorem compactTurn_packed {before after : List Entry} {entry : Entry}
    (inv : InstanceInvariant config state)
    (htable : state.entryTable = packFrom config 0 before ++ entry :: after) :
    (Instancia.compactTurn config state before.length).entryTable =
      packFrom config 0 (before ++ [entry]) ++ after := by
  have hmem : entry ∈ state.entryTable := by simp [htable]
  have hindex : state.entryTable[before.length]? = some entry := by
    have hlength : (packFrom config 0 before).length = before.length := length_packFrom 0 before
    rw [htable, List.getElem?_append_right hlength.le, hlength, Nat.sub_self,
      List.getElem?_cons_zero]
  have hothers := inv.table.otherEntries_of_split htable
  have hkeep := (inv.compactEntry hmem).1
  obtain ⟨nextEntry, hsearch, hinside, heq⟩ := inv.compactEntry_eq hmem
  rw [hothers] at hsearch
  obtain rfl := inv.searchGap_packed htable hsearch
  simp only [Instancia.compactTurn, hindex]
  rw [heq] at hkeep ⊢
  -- both tables are strictly ordered and have the same entries
  have hkey := keyValueGenerator_key entry.size (inv.table.keyShort entry hmem)
  have hperm : (putBack config state entry
      (occupied (Entry.slots config) before)).entryTable.Perm
        (packFrom config 0 (before ++ [entry]) ++ after) := by
    obtain ⟨table, hinsert, hperm, -⟩ := entryTableInsert_eq config
      { Instancia.takeOut config state entry with
        storage := writeCells state.storage
          (occupied (Entry.slots config) before * config.entrySize)
          (storageRetrieve config state entry.number entry.size) }
      (occupied (Entry.slots config) before) (keyValueGenerator entry.key entry.size)
    have hgone : otherEntries (packFrom config 0 before ++ after) entry.key =
        packFrom config 0 before ++ after := by
      rw [← hothers]
      exact otherEntries_of_none (by simp [inv.table.getEntry_otherEntries])
    simp only [putBack, hinsert]
    refine hperm.trans ?_
    simp only [hkey, Instancia.takeOut, hothers, hgone, packFrom_append, packFrom,
      convertKeyValueToEntry, keyValueGenerator_size, Nat.zero_add, List.append_assoc,
      List.cons_append, List.nil_append]
    exact List.perm_middle.symm
  have hordered := hkeep.table.numbers_lt
  apply eq_of_perm_of_numbers_lt hperm hordered
  have hsorted := inv.table.numbers_lt
  have hsep := inv.table.separated
  have hslots := inv.table.slots_pos
  rw [htable] at hsorted hsep hslots
  obtain ⟨hpacked, hrest, hcross⟩ := List.pairwise_append.mp hsorted
  obtain ⟨hentry, hafter⟩ := List.pairwise_cons.mp hrest
  have hbehind : occupied (Entry.slots config) before ≤ entry.number := by
    have hcross' := (List.pairwise_append.mp hsep).2.2
    have := Separated.occupied_le (List.pairwise_append.mp hsep).1 (Nat.zero_le entry.number)
      (fun _ _ => Nat.zero_le _) fun other hother => hcross' other hother entry (by simp)
    simpa using this
  simp only [packFrom_append, packFrom, List.append_assoc, List.cons_append, List.nil_append,
    Nat.zero_add]
  refine List.pairwise_append.mpr ⟨hpacked, List.pairwise_cons.mpr ⟨?_, hafter⟩, ?_⟩
  · intro other hother
    have := hentry other hother
    simp only
    omega
  · intro first hfirst second hsecond
    have hend := end_le_of_mem_packFrom hfirst
    have hposFirst := hslots first (by simp [hfirst])
    rcases List.mem_cons.mp hsecond with rfl | hsecond
    · simp only
      omega
    · have := hentry second hsecond
      omega

/-- After some turns, that many entries are packed. -/
theorem compactTurns_packed (inv : InstanceInvariant config state) {turns : ℕ}
    (hturns : turns ≤ state.entryTable.length) :
    (Instancia.compactTurns config state turns).entryTable =
      packFrom config 0 (state.entryTable.take turns) ++ state.entryTable.drop turns := by
  induction turns with
  | zero => rfl
  | succ turns ih =>
      have hlt : turns < state.entryTable.length := hturns
      have htable := ih (Nat.le_of_succ_le hturns)
      rw [List.drop_eq_getElem_cons hlt] at htable
      have hstep := (inv.compactTurns turns).1.compactTurn_packed htable
      rw [List.length_take_of_le hlt.le] at hstep
      rw [Instancia.compactTurns, hstep, List.take_succ_eq_append_getElem hlt]

/-- **Compaction packs the table**: the same entries, in the same order, from the
first slot on. -/
theorem compactationCompact_packed (inv : InstanceInvariant config state) :
    (Instancia.compactationCompact config state).entryTable =
      packFrom config 0 state.entryTable := by
  have hall := inv.compactTurns_packed (le_refl state.entryTable.length)
  rw [List.take_length, List.drop_length, List.append_nil] at hall
  exact hall

end InstanceInvariant

end SockMyPort.Instancia
