/-
# The status table as a copy of the entry table

The replacement algorithms read a table with one status for each slot. It is
built once from the entry table and then kept up to date by separate calls. This
module says when the copy is right, what each update needs for it to stay right,
and that it is right after every run in which the updates have what they need.

Three updates can go wrong. A value that shrinks to fewer entries, and a value
that moves to another place, leave statuses of the key behind. Deleting a key
clears the first slots that carry its name in any case, as many as another size
says, which may be too few of the key's own slots, or slots of another key.
-/

import SockMyPort.Instancia.StoreMap
import Mathlib.Data.List.Forall2

namespace SockMyPort.Instancia

open SockMyPort.Commons Library

variable {config : Config}

/-! ## Coherence -/

/-- A status says of a slot what another one says, up to its age. -/
def Status.SameAs (actual expected : Status) : Prop :=
  actual.status = expected.status ∧ actual.key = expected.key ∧
    actual.spaceUsed = expected.spaceUsed

/-- A status claims its slot for a key when it is atomic or not atomic. -/
def Status.Claims (status : Status) : Prop :=
  status.status = .atomic ∨ status.status = .nonAtomic

variable (config) in
/-- The status table agrees with the entry table: the slots of an entry carry the
status of the entry, and no other slot is claimed. -/
structure CoherentStatus (table : List Entry) (statuses : List Status) : Prop where
  occupied : ∀ (i : ℕ) (status : Status), statuses[i]? = some status →
    ∀ entry ∈ table, i ∈ entry.run config → status.SameAs (convertEntryToStatus config entry)
  unoccupied : ∀ (i : ℕ) (status : Status), statuses[i]? = some status →
    (∀ entry ∈ table, i ∉ entry.run config) → ¬ status.Claims

@[simp]
theorem Entry.mem_run {entry : Entry} {i : ℕ} :
    i ∈ entry.run config ↔ entry.number ≤ i ∧ i < entry.number + entry.slots config := by
  simp [Entry.run, List.mem_range'_1]

theorem Status.SameAs.age {status expected : Status} (h : status.SameAs expected) :
    status.age.SameAs expected := by
  simpa [Status.SameAs] using h

theorem convertEntryToStatus_spec (config : Config) (entry : Entry) :
    (convertEntryToStatus config entry).key = entry.key ∧
      ((convertEntryToStatus config entry).status = .atomic ↔
        entryTableIsEntryAtomic config entry = true) ∧
      (convertEntryToStatus config entry).Claims := by
  simp only [convertEntryToStatus, Status.Claims]
  split <;> simp [*]

namespace CoherentStatus

variable {table : List Entry} {statuses : List Status} {left : ℤ}

/-! ## Giving slots up -/

/-- A replaced key occupied one slot, which was given up. -/
theorem evict (h : CoherentStatus config table statuses) (inv : TableInvariant config table left)
    {kept : List Entry} {after : List Status} {replacedKeys evicted : List CString}
    (hevicts : Evicts statuses after evicted)
    (habsent : ∀ key ∈ replacedKeys, entryTableGetEntry table key = none)
    (hkept : ∀ entry, entry ∈ kept ↔ entry ∈ table ∧ entry.key ∉ replacedKeys ++ evicted) :
    CoherentStatus config kept after where
  occupied i status hstatus entry hmem hrun := by
    obtain ⟨htable, hlisted⟩ := (hkept entry).mp hmem
    rcases hevicts.slots i with hsame | ⟨old, hold, -, hkey, -⟩
    · exact h.occupied i status (hsame.symm.trans hstatus) entry htable hrun
    · have hown := (h.occupied i old hold entry htable hrun).2.1
      rw [(convertEntryToStatus_spec _ entry).1] at hown
      exact absurd (List.mem_append_right _ (hown ▸ hkey)) hlisted
  unoccupied i status hstatus hrun hclaims := by
    rcases hevicts.slots i with hsame | ⟨old, -, -, -, hused⟩
    · -- a slot that was not given up was not occupied by a replaced key either
      rw [hstatus] at hsame
      refine h.unoccupied i status hsame.symm (fun entry htable hrun' => ?_) hclaims
      by_cases hlisted : entry.key ∈ replacedKeys ++ evicted
      · rcases List.mem_append.mp hlisted with hearlier | hevicted
        · have hnone := habsent entry.key hearlier
          rw [entryTableGetEntry_eq_none_iff] at hnone
          exact hnone (List.mem_map_of_mem htable)
        · obtain ⟨j, old, hold, hatomic, hkey, hused⟩ := hevicts.keys entry.key hevicted
          have hj : ∃ other ∈ table, j ∈ other.run config := by
            by_contra hnone
            simp only [not_exists, not_and] at hnone
            exact h.unoccupied j old hold hnone (.inl hatomic)
          obtain ⟨other, hother, hjrun⟩ := hj
          have hsameAs := h.occupied j old hold other hother hjrun
          obtain ⟨hname, hstat, -⟩ := convertEntryToStatus_spec config other
          have heq : other = entry :=
            List.inj_on_of_nodup_map inv.keysDistinct hother htable
              (hname.symm.trans (hsameAs.2.1.symm.trans hkey))
          subst heq
          have hone := reqEntries_of_atomic (hstat.mp (hsameAs.1.symm.trans hatomic))
            (inv.nonempty other htable)
          rw [Entry.mem_run] at hjrun hrun'
          have hij : i = j := by
            simp only [Entry.slots, hone] at hjrun hrun'
            omega
          subst hij
          rw [hstatus] at hused
          cases hused
          rcases hclaims with hclaim | hclaim <;> cases hclaim
      · exact hrun entry ((hkept entry).mpr ⟨htable, hlisted⟩) hrun'
    · rw [hstatus] at hused
      cases hused
      rcases hclaims with hclaim | hclaim <;> cases hclaim

/-! ## Deleting a key -/

end CoherentStatus

variable (config) in
/-- Deleting the statuses of a key clears, of the occupied slots, exactly those of
the key. -/
def deletesOwnRun (table : List Entry) (statuses : List Status) (keyValue : KeyValue) : Bool :=
  table.all fun entry => (entry.run config).all fun i =>
    deleteKvClears keyValue.key statuses (entryTableEntriesNeeded config keyValue) i =
      decide (entry.key = keyValue.key)

theorem clears_of_deletesOwnRun {table : List Entry} {statuses : List Status} {keyValue : KeyValue}
    (hown : deletesOwnRun config table statuses keyValue = true) {entry : Entry}
    (hmem : entry ∈ table) {i : ℕ} (hrun : i ∈ entry.run config) :
    deleteKvClears keyValue.key statuses (entryTableEntriesNeeded config keyValue) i =
      decide (entry.key = keyValue.key) := by
  simp only [deletesOwnRun, List.all_eq_true, decide_eq_true_eq] at hown
  exact hown entry hmem i hrun

namespace CoherentStatus

variable {table : List Entry} {statuses : List Status} {left : ℤ}

theorem delete (h : CoherentStatus config table statuses) (inv : TableInvariant config table left)
    {keyValue : KeyValue} (hown : deletesOwnRun config table statuses keyValue = true) :
    CoherentStatus config (otherEntries table keyValue.key)
      (entryTableStatusDeleteKv config statuses keyValue) where
  occupied i status hstatus entry hmem hrun := by
    obtain ⟨htable, hkey⟩ := inv.mem_otherEntries_iff.mp hmem
    have hkeeps := clears_of_deletesOwnRun hown htable hrun
    rw [decide_eq_false hkey] at hkeeps
    rw [entryTableStatusDeleteKv, getElem?_deleteKvLoop, hkeeps] at hstatus
    exact h.occupied i status hstatus entry htable hrun
  unoccupied i status hstatus hrun hclaims := by
    rw [entryTableStatusDeleteKv, getElem?_deleteKvLoop] at hstatus
    split at hstatus
    · cases hstatus
      rcases hclaims with hclaim | hclaim <;> cases hclaim
    · rename_i hkept
      refine h.unoccupied i status hstatus (fun entry htable hrun' => ?_) hclaims
      by_cases hkey : entry.key = keyValue.key
      · exact hkept ((clears_of_deletesOwnRun hown htable hrun').trans (decide_eq_true hkey))
      · exact hrun entry (inv.mem_otherEntries_iff.mpr ⟨htable, hkey⟩) hrun'

/-! ## Adding a key -/

/-- Writing the status of a new entry over its run, which covers the old run of
the same key. -/
theorem add (h : CoherentStatus config table statuses) (inv : TableInvariant config table left)
    {result : List Entry} {keyValue : KeyValue} {nextEntry : ℕ} (hsize : 0 < keyValue.size)
    (hperm : result.Perm (convertKeyValueToEntry keyValue nextEntry ::
      otherEntries table keyValue.key))
    (hfree : FreeRun config (otherEntries table keyValue.key) nextEntry
      (reqEntries config keyValue.size))
    (hcovers : ∀ old, entryTableGetEntry table keyValue.key = some old →
      nextEntry = old.number ∧ old.slots config ≤ reqEntries config keyValue.size) :
    CoherentStatus config result (entryTableStatusAddKv config statuses keyValue nextEntry) := by
  have hslot : ∀ (i : ℕ) (status : Status),
      (entryTableStatusAddKv config statuses keyValue (some nextEntry))[i]? = some status →
      (nextEntry ≤ i ∧ i < nextEntry + reqEntries config keyValue.size ∧
        status = convertEntryToStatus config (convertKeyValueToEntry keyValue nextEntry)) ∨
      (¬ (nextEntry ≤ i ∧ i < nextEntry + reqEntries config keyValue.size) ∧
        ∃ old, statuses[i]? = some old ∧ status = old.age) := by
    intro i status hstatus
    have hi : i < (statuses.map Status.age).length := by
      obtain ⟨hlt, -⟩ := List.getElem?_eq_some_iff.mp hstatus
      simpa using hlt
    rw [entryTableStatusAddKv_eq hsize, getElem?_replaceRun hi] at hstatus
    split at hstatus
    · rename_i hin
      exact .inl ⟨hin.1, hin.2, (Option.some.inj hstatus).symm⟩
    · rename_i hout
      rw [List.getElem?_map, Option.map_eq_some_iff] at hstatus
      obtain ⟨old, hold, rfl⟩ := hstatus
      exact .inr ⟨hout, old, hold, rfl⟩
  constructor
  · intro i status hstatus entry hmem hrun
    rw [Entry.mem_run] at hrun
    rcases List.mem_cons.mp (hperm.mem_iff.mp hmem) with rfl | hother
    · rcases hslot i status hstatus with ⟨-, -, rfl⟩ | ⟨hout, -⟩
      · exact ⟨rfl, rfl, rfl⟩
      · exact absurd hrun hout
    · rcases hslot i status hstatus with ⟨hlow, hhigh, -⟩ | ⟨-, old, hold, rfl⟩
      · have := hfree entry hother
        omega
      · have htable := (inv.mem_otherEntries_iff.mp hother).1
        exact (h.occupied i old hold entry htable (Entry.mem_run.mpr hrun)).age
  · intro i status hstatus hrun hclaims
    have hnew : i ∉ (convertKeyValueToEntry keyValue nextEntry).run config :=
      hrun _ (hperm.mem_iff.mpr (List.mem_cons_self ..))
    rcases hslot i status hstatus with ⟨hlow, hhigh, -⟩ | ⟨hout, old, hold, rfl⟩
    · exact hnew (Entry.mem_run.mpr ⟨hlow, hhigh⟩)
    · refine h.unoccupied i old hold (fun entry htable hrun' => ?_)
        (by simpa [Status.Claims] using hclaims)
      by_cases hkey : entry.key = keyValue.key
      · obtain ⟨hplace, hslots⟩ := hcovers entry
          ((inv.getEntry_eq_some_iff _ _).mpr ⟨htable, hkey⟩)
        rw [Entry.mem_run] at hrun'
        omega
      · exact hrun entry (hperm.mem_iff.mpr (List.mem_cons_of_mem _
          (inv.mem_otherEntries_iff.mpr ⟨htable, hkey⟩))) hrun'

/-- The tables of an empty instance. -/
theorem init : CoherentStatus config []
    (originalEntryTableMigrationToEntryTableStatus config []) where
  occupied := by simp
  unoccupied i status hstatus _ hclaims := by
    rw [originalEntryTableMigrationToEntryTableStatus, migrateFrom_nil _ _ (Nat.zero_add _)]
      at hstatus
    obtain ⟨-, rfl⟩ := List.mem_replicate.mp (List.mem_of_getElem? hstatus)
    rcases hclaims with hclaim | hclaim <;> cases hclaim

end CoherentStatus

/-! ## What each operation needs -/

variable (config) in
/-- Placing a value keeps the tables in agreement: a stored key that is deleted
for a compaction loses its own statuses only, and a stored key that is given a
place stays in its own and does not give entries up. -/
def placeKeepsStatus (state : InstanceState) (keyValue : KeyValue) : Bool :=
  if entryTableHasContinousEntries config state keyValue then
    match entryTableGetEntry state.entryTable keyValue.key,
        entryTableNextEntry config state keyValue with
    | some old, some nextEntry =>
        -- a value that does not fit behind its place is refused, and changes nothing
        decide (nextEntry * config.entrySize + keyValue.size ≤
          config.totalEntries * config.entrySize →
            nextEntry = old.number ∧ old.slots config ≤ reqEntries config keyValue.size)
    | _, _ => true
  else
    !entryTableHasKey state.entryTable keyValue.key false ||
      deletesOwnRun config state.entryTable state.entryTableStatusGlobal keyValue

variable (config) in
/-- The same for a call of `instance_set`, once replaced keys are gone. -/
def setKeepsStatus (state : InstanceState) (keyValue : KeyValue) (replacedKeys : List CString) :
    Bool :=
  if newValueFitsWithReplaced config state keyValue then
    match instanceSetReplace config state keyValue replacedKeys with
    | (replaced, _, finished) => !finished || placeKeepsStatus config replaced keyValue
  else true

variable (config) in
/-- Every turn of a compaction deletes the statuses of its own key only. -/
def compactKeepsStatus (state : InstanceState) : Bool :=
  (List.range state.entryTable.length).all fun turn =>
    let reached := compactTurns config state turn
    match reached.entryTable[turn]? with
    | some entry =>
        deletesOwnRun config reached.entryTable reached.entryTableStatusGlobal
          (keyValueGenerator entry.key entry.size)
    | none => true

variable (config) in
/-- The same for a request. -/
def requestKeepsStatus (state : InstanceState) : Request → Bool
  | .set request =>
      if request.isNew || entryTableHasKey state.entryTable request.keyValue.key false then
        let first := instanceSet config state request.keyValue []
        setKeepsStatus config state request.keyValue [] &&
          (!(request.sendOk && decide (first.status = .compact)) ||
            (compactKeepsStatus config first.state &&
              setKeepsStatus config (compactationCompact config first.state) request.keyValue
                first.replacedKeys))
      else true
  | .compact => compactKeepsStatus config state
  | _ => true

/-! ## Every operation keeps the agreement -/

variable (config) in
/-- The invariant of an instance whose status table agrees with its entries. -/
abbrev InstanceState.Coherent (state : InstanceState) : Prop :=
  CoherentStatus config state.entryTable state.entryTableStatusGlobal

theorem ReplaceOutcome.mem_iff {state next : InstanceState} {replacedKeys nextKeys : List CString}
    (h : ReplaceOutcome config state replacedKeys next nextKeys)
    (inv : InstanceInvariant config state) (entry : Entry) :
    entry ∈ next.entryTable ↔ entry ∈ state.entryTable ∧ entry.key ∉ nextKeys := by
  have hnext := h.inv.table.getEntry_eq_some_iff entry.key entry
  have hstate := inv.table.getEntry_eq_some_iff entry.key entry
  rw [h.lookup] at hnext
  simp only [and_true] at hnext hstate
  rw [← hnext, ← hstate]
  split <;> simp [*]

namespace InstanceInvariant

variable {state : InstanceState}

theorem coherent_replace (inv : InstanceInvariant config state) (hcoherent : state.Coherent config)
    (keyValue : KeyValue) {replacedKeys : List CString}
    (hshort : ∀ key ∈ replacedKeys, key.length ≤ 40)
    (hgone : ∀ key ∈ replacedKeys, entryTableGetEntry state.entryTable key = none) :
    (Instancia.instanceSetReplace config state keyValue replacedKeys).1.Coherent config := by
  have hreplace := inv.instanceSetReplace keyValue _ hshort hgone
  obtain ⟨evicted, hkeys, hevicts⟩ := hreplace.evicts
  refine hcoherent.evict inv.table hevicts hgone fun entry => ?_
  rw [hreplace.mem_iff inv, hkeys]

theorem coherent_place (inv : InstanceInvariant config state) (hcoherent : state.Coherent config)
    {keyValue : KeyValue} (hvalue : keyValue.value ≠ [])
    (hkeeps : placeKeepsStatus config state keyValue = true) :
    (Instancia.instanceSetPlace config state keyValue).1.Coherent config := by
  have hsize : 0 < keyValue.size := by
    rw [keyValue.size_eq]
    exact List.length_pos_of_ne_nil hvalue
  simp only [placeKeepsStatus] at hkeeps
  simp only [Instancia.instanceSetPlace]
  cases hcontinous : entryTableHasContinousEntries config state keyValue
  · simp only [hcontinous, Bool.false_eq_true, if_false] at hkeeps
    simp only [Bool.not_false, if_true]
    split
    · rename_i hkey
      have hdeleted := hcoherent.delete inv.table (by simpa [hkey] using hkeeps)
      obtain ⟨left, hdelete⟩ := entryTableDelete_frame config state keyValue
      rw [hdelete]
      exact hdeleted
    · exact hcoherent
  · simp only [hcontinous, if_true] at hkeeps
    simp only [Bool.not_true, Bool.false_eq_true, if_false]
    split
    · exact hcoherent
    · rename_i nextEntry hnext
      split
      · exact hcoherent
      · rename_i stored hset
        simp only [storageSet] at hset
        split at hset
        · cases hset
        · rename_i hroom
          obtain rfl := Option.some.inj hset
          obtain ⟨table, heq, hperm, -⟩ := entryTableInsert_eq config
            { state with
              storage := writeCells state.storage (nextEntry * config.entrySize)
                ((bytesOf keyValue.value).take keyValue.size) } nextEntry keyValue
          rw [heq]
          exact hcoherent.add inv.table hsize hperm (inv.table.freeRun_of_nextEntry hnext)
            fun old hget => by
              rw [hget, hnext] at hkeeps
              exact of_decide_eq_true hkeeps (Nat.le_of_not_lt hroom)

theorem coherent_set (inv : InstanceInvariant config state) (keyValue : KeyValue)
    (replacedKeys : List CString) (hcoherent : state.Coherent config) (hvalue : keyValue.value ≠ [])
    (hshort : ∀ key ∈ replacedKeys, key.length ≤ 40)
    (hgone : ∀ key ∈ replacedKeys, contents config state key = none)
    (hkeeps : setKeepsStatus config state keyValue replacedKeys = true) :
    (Instancia.instanceSet config state keyValue replacedKeys).state.Coherent config := by
  have hgone' : ∀ key ∈ replacedKeys, entryTableGetEntry state.entryTable key = none :=
    fun key hmem => Option.map_eq_none_iff.mp (hgone key hmem)
  have hreplace := inv.instanceSetReplace keyValue _ hshort hgone'
  have hreplaced := inv.coherent_replace hcoherent keyValue hshort hgone'
  simp only [setKeepsStatus] at hkeeps
  simp only [Instancia.instanceSet]
  cases hfits : newValueFitsWithReplaced config state keyValue
  · exact hcoherent
  simp only [hfits, if_true] at hkeeps
  simp only [Bool.not_true, Bool.false_eq_true, if_false]
  rcases houtcome : Instancia.instanceSetReplace config state keyValue replacedKeys with
    ⟨replaced, keys, _ | _⟩
  · rw [houtcome] at hreplaced
    exact hreplaced
  · rw [houtcome] at hreplace hreplaced hkeeps
    exact hreplace.inv.coherent_place hreplaced hvalue (by simpa using hkeeps)

theorem coherent_compactEntry (inv : InstanceInvariant config state)
    (hcoherent : state.Coherent config) {entry : Entry} (hmem : entry ∈ state.entryTable)
    (hown : deletesOwnRun config state.entryTable state.entryTableStatusGlobal
      (keyValueGenerator entry.key entry.size) = true) :
    (Instancia.compactEntry config state entry).Coherent config := by
  have hkey := keyValueGenerator_key entry.size (inv.table.keyShort entry hmem)
  have hout := inv.takeOut hmem
  have hdeleted := hcoherent.delete inv.table hown
  rw [hkey] at hdeleted
  obtain ⟨nextEntry, hsearch, -, heq⟩ := inv.compactEntry_eq hmem
  rw [heq]
  obtain ⟨table, hinsert, hperm, -⟩ := entryTableInsert_eq config
    { Instancia.takeOut config state entry with
      storage := writeCells state.storage (nextEntry * config.entrySize)
        (storageRetrieve config state entry.number entry.size) } nextEntry
    (keyValueGenerator entry.key entry.size)
  have hgone : entryTableGetEntry (otherEntries state.entryTable entry.key) entry.key = none := by
    simp [inv.table.getEntry_otherEntries]
  simp only [putBack, hinsert]
  refine CoherentStatus.add hdeleted hout.table (by simpa using inv.table.nonempty entry hmem)
    hperm ?_ ?_
  · simp only [hkey, keyValueGenerator_size]
    rw [otherEntries_of_none hgone]
    exact (hout.table.searchGap_sound hsearch).1
  · intro old hold
    rw [hkey] at hold
    rw [hgone] at hold
    cases hold

theorem coherent_compactTurns (inv : InstanceInvariant config state)
    (hcoherent : state.Coherent config) (hkeeps : compactKeepsStatus config state = true)
    {turns : ℕ}
    (hturns : turns ≤ state.entryTable.length) :
    (Instancia.compactTurns config state turns).Coherent config := by
  induction turns with
  | zero => exact hcoherent
  | succ turns ih =>
      have hbefore := ih (Nat.le_of_succ_le hturns)
      simp only [Instancia.compactTurns, Instancia.compactTurn]
      split
      · rename_i entry hentry
        exact (inv.compactTurns turns).1.coherent_compactEntry hbefore
          (List.mem_of_getElem? hentry) (by
            have hturn := List.all_eq_true.mp hkeeps turns (List.mem_range.mpr hturns)
            simpa only [hentry] using hturn)
      · exact hbefore

theorem coherent_compact (inv : InstanceInvariant config state)
    (hcoherent : state.Coherent config) (hkeeps : compactKeepsStatus config state = true) :
    (Instancia.compactationCompact config state).Coherent config :=
  inv.coherent_compactTurns hcoherent hkeeps (le_refl _)

theorem coherent_request (inv : InstanceInvariant config state)
    (hcoherent : state.Coherent config) {request : Request}
    (hkeeps : requestKeepsStatus config state request = true) {next : InstanceState}
    {calls : List SetCall}
    (hhandle : Instancia.handleRequest config state request = some (next, calls)) :
    next.Coherent config := by
  obtain ⟨-, ⟨request, rfl, rfl, -⟩ | ⟨rfl, rfl, -⟩ | ⟨-, -, dumper, alive, rfl⟩⟩ :=
    handleRequest_cases hhandle
  · cases hhandled : (request.isNew ||
      entryTableHasKey state.entryTable request.keyValue.key false)
    · rw [instanceThreadApiSet_state_of_unknown hhandled]
      exact hcoherent
    · simp only [requestKeepsStatus, hhandled, if_true, Bool.and_eq_true, Bool.or_eq_true,
        Bool.not_eq_true', Bool.and_eq_false_iff, decide_eq_false_iff_not] at hkeeps
      obtain ⟨hset, hcompact⟩ := hkeeps
      obtain ⟨hfirst, -, -⟩ := inv.instanceSet request.keyValue []
        request.value_ne (by simp) (by simp)
      have hfirstCoherent := inv.coherent_set request.keyValue [] hcoherent request.value_ne
        (by simp) (by simp) hset
      rcases instanceThreadApiSet_cases config hhandled with
        ⟨alive, hstate, -⟩ | ⟨hsend, hstatus, hstate, -⟩
      · rw [hstate]
        exact hfirstCoherent
      · obtain ⟨hcompactKeeps, hsecond⟩ := hcompact.resolve_left (by simp [hsend, hstatus])
        rw [hstate]
        have hcompacted := hfirst.coherent_compact hfirstCoherent hcompactKeeps
        obtain ⟨hinv, hshort, hgone⟩ := inv.second_call request.value_ne hstatus
        exact hinv.coherent_set _ _ hcompacted request.value_ne hshort hgone hsecond
  · exact inv.coherent_compact hcoherent hkeeps
  · exact hcoherent

end InstanceInvariant

/-! ## The rebuilt table -/

/-- One slot of the table agrees with the slot of a rebuilt one: it makes the
same claim, or none when the other makes none. -/
def Status.Agrees (actual rebuilt : Status) : Prop :=
  (rebuilt.Claims → actual.SameAs rebuilt) ∧ (¬ rebuilt.Claims → ¬ actual.Claims)

/-- What rebuilding writes into a slot. -/
def RebuiltSlot (config : Config) (table : List Entry) (slot : ℕ) (status : Status) : Prop :=
  (∀ entry ∈ table, slot ∈ entry.run config → status = convertEntryToStatus config entry) ∧
    ((∀ entry ∈ table, slot ∉ entry.run config) → status = freeStatus)

/-- Rebuilding from a slot at which no entry is cut in two. -/
theorem migrateFrom_spec {table : List Entry} {left : ℤ} (inv : TableInvariant config table left)
    (fuel i : ℕ) (hfuel : config.totalEntries ≤ i + fuel) (hi : i ≤ config.totalEntries)
    (hcut : ∀ entry ∈ table, entry.number < i → entry.number + entry.slots config ≤ i) :
    (migrateFrom config table i fuel).length = config.totalEntries - i ∧
      ∀ (j : ℕ) (status : Status), (migrateFrom config table i fuel)[j]? = some status →
        RebuiltSlot config table (i + j) status := by
  induction fuel generalizing i with
  | zero =>
      refine ⟨?_, fun j status hstatus => by simp [migrateFrom] at hstatus⟩
      simp only [migrateFrom, List.length_nil]
      omega
  | succ fuel ih =>
      by_cases hlt : i < config.totalEntries
      · cases hget : entryTableGetEntryByEntryNumber table i with
        | none =>
            -- no entry begins here, and none that began before reaches here
            have hbegins : ∀ entry ∈ table, entry.number ≠ i := by
              simpa [entryTableGetEntryByEntryNumber] using hget
            obtain ⟨hlength, hrest⟩ := ih (i + 1) (by omega) (by omega) fun entry hmem hnumber => by
              have hne := hbegins entry hmem
              have := hcut entry hmem (by omega)
              omega
            simp only [migrateFrom, hlt, if_true, hget]
            refine ⟨by rw [List.length_cons, hlength]; omega, fun j status hstatus => ?_⟩
            cases j with
            | zero =>
                obtain rfl : freeStatus = status := by simpa using hstatus
                refine ⟨fun entry hmem hrun => ?_, fun _ => rfl⟩
                rw [Entry.mem_run] at hrun
                have hne := hbegins entry hmem
                have := hcut entry hmem (by omega)
                omega
            | succ j =>
                have := hrest j status (by simpa using hstatus)
                rwa [Nat.add_assoc, Nat.add_comm 1 j] at this
        | some entry =>
            have hmem : entry ∈ table := List.mem_of_find?_eq_some hget
            have hnumber : entry.number = i := by simpa using List.find?_some hget
            have hpos := inv.slots_pos entry hmem
            have hinside := inv.inside entry hmem
            have hapart : ∀ other ∈ table, other = entry ∨
                other.number + other.slots config ≤ i ∨
                  i + entry.slots config ≤ other.number := by
              intro other hother
              by_cases heq : other = entry
              · exact .inl heq
              · rcases inv.apart_of_mem hother hmem heq with hends | hends
                · exact .inr (.inl (hnumber ▸ hends))
                · exact .inr (.inr (hnumber ▸ hends))
            obtain ⟨hlength, hrest⟩ := ih (i + entry.slots config) (by omega) (by omega)
              fun other hother hbefore => by
                rcases hapart other hother with rfl | hends | hbegins <;> omega
            have hmigrate : migrateFrom config table i (fuel + 1) =
                List.replicate (entry.slots config) (convertEntryToStatus config entry) ++
                  migrateFrom config table (i + entry.slots config) fuel := by
              simp only [migrateFrom, hlt, if_true, hget]
              split
              · rename_i hatomic
                rw [Entry.slots, reqEntries_of_atomic hatomic (inv.nonempty entry hmem)]
                rfl
              · rfl
            rw [hmigrate]
            refine ⟨?_, fun j status hstatus => ?_⟩
            · rw [List.length_append, List.length_replicate, hlength]
              omega
            · by_cases hj : j < entry.slots config
              · rw [List.getElem?_append_left (by simpa using hj)] at hstatus
                obtain ⟨-, rfl⟩ := List.mem_replicate.mp (List.mem_of_getElem? hstatus)
                refine ⟨fun other hother hrun => ?_, fun hnone => ?_⟩
                · rw [Entry.mem_run] at hrun
                  rcases hapart other hother with rfl | hends | hbegins
                  · rfl
                  · omega
                  · omega
                · exact absurd (Entry.mem_run.mpr ⟨by omega, by omega⟩) (hnone entry hmem)
              · rw [List.getElem?_append_right (by simpa using hj)] at hstatus
                have := hrest _ status hstatus
                rwa [List.length_replicate, show i + entry.slots config +
                  (j - entry.slots config) = i + j by omega] at this
      · simp only [migrateFrom, hlt, if_false]
        refine ⟨?_, fun j status hstatus => by simp at hstatus⟩
        simp only [List.length_nil]
        omega

/-- A coherent table agrees, slot by slot, with the one that would be rebuilt. -/
theorem CoherentStatus.agrees {table : List Entry} {statuses : List Status} {left : ℤ}
    (h : CoherentStatus config table statuses) (inv : TableInvariant config table left)
    (hlength : statuses.length = config.totalEntries) :
    List.Forall₂ Status.Agrees statuses
      (originalEntryTableMigrationToEntryTableStatus config table) := by
  obtain ⟨hrebuilt, hslots⟩ := migrateFrom_spec inv config.totalEntries 0 (by omega) (by omega)
    (by simp)
  refine List.forall₂_iff_get.mpr ⟨by rw [hlength]; exact hrebuilt.symm, fun i hactual hi => ?_⟩
  have hstatus : statuses[i]? = some (statuses.get ⟨i, hactual⟩) := by simp [hactual]
  have hslot := hslots i ((originalEntryTableMigrationToEntryTableStatus config table).get ⟨i, hi⟩)
    (List.getElem?_eq_getElem hi)
  rw [Nat.zero_add] at hslot
  by_cases hcovered : ∃ entry ∈ table, i ∈ entry.run config
  · obtain ⟨entry, hmem, hrun⟩ := hcovered
    rw [hslot.1 entry hmem hrun]
    exact ⟨fun _ => h.occupied i _ hstatus entry hmem hrun,
      fun hnone => absurd (convertEntryToStatus_spec _ entry).2.2 hnone⟩
  · simp only [not_exists, not_and] at hcovered
    rw [hslot.2 hcovered]
    refine ⟨fun hclaims => ?_, fun _ => h.unoccupied i _ hstatus hcovered⟩
    rcases hclaims with hclaim | hclaim <;> cases hclaim

/-! ## Runs -/

theorem coherentInvariant_of_runs {mountPoint : CString} {events : List Request}
    {finish : TracedInstance}
    (hrun : (instanceStep config).Runs
      (fun traced request => requestKeepsStatus config traced.state request = true)
      (freshInstance config mountPoint) events finish) :
    InstanceInvariant config finish.state ∧ finish.state.Coherent config := by
  refine hrun.invariant
    (fun traced => InstanceInvariant config traced.state ∧ traced.state.Coherent config)
    ?_ ⟨instanceInit_invariant mountPoint, CoherentStatus.init⟩
  rintro traced request next ⟨hinv, hcoherent⟩ hkeeps hstep
  simp only [instanceStep, Option.map_eq_some_iff] at hstep
  obtain ⟨⟨state, calls⟩, hhandle, rfl⟩ := hstep
  exact ⟨(hinv.handleRequest hhandle).1, hinv.coherent_request hcoherent hkeeps hhandle⟩

/-- In every run whose requests keep the statuses, the status table agrees with
the entry table and with the table that would be rebuilt from it. -/
theorem coherent_of_runs {mountPoint : CString} {events : List Request} {finish : TracedInstance}
    (hrun : (instanceStep config).Runs
      (fun traced request => requestKeepsStatus config traced.state request = true)
      (freshInstance config mountPoint) events finish) :
    finish.state.Coherent config ∧
      List.Forall₂ Status.Agrees finish.state.entryTableStatusGlobal
        (originalEntryTableMigrationToEntryTableStatus config finish.state.entryTable) := by
  obtain ⟨hinv, hcoherent⟩ := coherentInvariant_of_runs hrun
  exact ⟨hcoherent, hcoherent.agrees hinv.table hinv.statuses.length⟩

/-- A value that shrinks from two entries to one leaves the second slot claimed. -/
theorem not_coherent_of_reachable :
    ¬ ∀ (config : Config) (mountPoint : CString) (state : InstanceState),
      InstanceReachable config mountPoint state →
        state.Coherent config ∧
          List.Forall₂ Status.Agrees state.entryTableStatusGlobal
            (originalEntryTableMigrationToEntryTableStatus config state.entryTable) := by
  intro hclaim
  obtain ⟨finish, hrun, hcheck⟩ := PartialStep.exists_run_of_execute
    (instanceStep threeEntries) (freshInstance threeEntries [])
    ([.set ⟨true, literal [107], literal [97, 98], by decide, true⟩,
      .set ⟨false, literal [107], literal [97], by decide, true⟩])
    (fun traced => decide
      ((traced.state.entryTableStatusGlobal[1]?.map Status.status) = some .nonAtomic ∧
        ∀ entry ∈ traced.state.entryTable, 1 ∉ entry.run threeEntries))
    (by decide)
  obtain ⟨hstatus, hrun'⟩ := of_decide_eq_true hcheck
  obtain ⟨status, hslot, hclaims⟩ := Option.map_eq_some_iff.mp hstatus
  exact (hclaim threeEntries [] finish.state (InstanceReachable.of_run hrun)).1.unoccupied 1 status
    hslot hrun' (.inr hclaims)

/-- Setting two keys and compacting keeps the statuses. -/
theorem coherent_of_runs_compact :
    ∃ finish : TracedInstance, finish.state.entryTable.length = 2 ∧
      finish.state.Coherent threeEntries ∧
      List.Forall₂ Status.Agrees finish.state.entryTableStatusGlobal
        (originalEntryTableMigrationToEntryTableStatus threeEntries finish.state.entryTable) := by
  obtain ⟨finish, hrun, hcheck⟩ := PartialStep.exists_run_of_execute
    ((instanceStep threeEntries).guarded fun traced request =>
      requestKeepsStatus threeEntries traced.state request) (freshInstance threeEntries [])
    ([.set ⟨true, literal [107], literal [97, 98], by decide, true⟩,
      .set ⟨true, literal [109], literal [97], by decide, true⟩, .compact])
    (fun traced => decide (traced.state.entryTable.length = 2)) (by decide)
  exact ⟨finish, of_decide_eq_true hcheck, coherent_of_runs (PartialStep.runs_of_guarded hrun)⟩

end SockMyPort.Instancia
