/-
# Keys in the order of their last SETs

The counters of the status table are to say which atomic key was set longest ago. This module
says what each operation needs for them to follow the last successful SETs, and that they do
after every run in which the operations have what they need.

Three things can go wrong. A value that grows out of its slot, or a deletion that clears other
slots than those of the key, leaves atomic slots that belong to no atomic entry, or entries
without their slot. A counter can reach the largest `int`. And a compaction adds every key
again, so that afterwards the counters follow the order of the table.
-/

import SockMyPort.Instancia.AgeOrder
import SockMyPort.Library.History

namespace SockMyPort.Instancia

open SockMyPort.Commons Library

variable {config : Config}

/-! ## The history of SETs -/

/-- A call that set the key. -/
def SetCall.Sets (key : CString) (call : SetCall) : Prop :=
  call.keyValue.key = key ∧ call.status = .ok

/-- Both keys were set, and the first one for the last time before the second. -/
def SetBefore (calls : List SetCall) (first second : CString) : Prop :=
  LastBefore (SetCall.Sets first) (SetCall.Sets second) calls

theorem setBefore_append_of_failed {calls : List SetCall} {call : SetCall} {first second : CString}
    (hfailed : call.status ≠ .ok) :
    SetBefore (calls ++ [call]) first second ↔ SetBefore calls first second :=
  lastBefore_append_iff (fun h => hfailed h.2) (fun h => hfailed h.2)

variable (config) in
/-- Some keys, all those of atomic entries among them, were set in the order in which they are
listed, and the counters follow this order. -/
structure RecencyOrder (calls : List SetCall) (table : List Entry) (statuses : List Status)
    (order : List CString) : Prop where
  ages : AgedInOrder config order (2 ^ 31) [] table statuses
  setBefore : order.Pairwise (SetBefore calls)
  wasSet : ∀ key ∈ order, ∃ place, LastAt (SetCall.Sets key) calls place
  listed : ∀ entry ∈ table, entryTableIsEntryAtomic config entry = true → entry.key ∈ order

variable (config) in
/-- The counters follow the last successful SETs. -/
abbrev InstanceState.Recent (calls : List SetCall) (state : InstanceState) : Prop :=
  ∃ order, RecencyOrder config calls state.entryTable state.entryTableStatusGlobal order

namespace RecencyOrder

variable {calls : List SetCall} {table : List Entry} {statuses : List Status}
  {order : List CString} {left : ℤ}

/-- A call that set nothing. -/
theorem append_failed (h : RecencyOrder config calls table statuses order) {call : SetCall}
    (hfailed : call.status ≠ .ok) :
    RecencyOrder config (calls ++ [call]) table statuses order where
  ages := h.ages
  setBefore := h.setBefore.imp fun hbefore => (setBefore_append_of_failed hfailed).mpr hbefore
  wasSet key hmem := by
    obtain ⟨place, hplace⟩ := h.wasSet key hmem
    exact ⟨place, (lastAt_append_iff fun hsets => hfailed hsets.2).mpr hplace⟩
  listed := h.listed

/-- Fewer entries, with counters that follow the same order. -/
theorem restrict (h : RecencyOrder config calls table statuses order) {kept : List Entry}
    {after : List Status} (hages : AgedInOrder config order (2 ^ 31) [] kept after)
    (hkept : ∀ entry ∈ kept, entry ∈ table) : RecencyOrder config calls kept after order where
  ages := hages
  setBefore := h.setBefore
  wasSet := h.wasSet
  listed entry hmem hatomic := h.listed entry (hkept entry hmem) hatomic

/-- A call that set a key puts it at the end. -/
theorem append_set {call : SetCall} {key : CString} (hsets : call.Sets key)
    (hbefore : order.Pairwise (SetBefore calls))
    (hwas : ∀ key ∈ order, ∃ place, LastAt (SetCall.Sets key) calls place) :
    (order.filter (· ≠ key) ++ [key]).Pairwise (SetBefore (calls ++ [call])) ∧
      ∀ other ∈ order.filter (· ≠ key) ++ [key],
        ∃ place, LastAt (SetCall.Sets other) (calls ++ [call]) place := by
  have hother : ∀ other, other ≠ key → ¬ call.Sets other := by
    rintro other hne ⟨hkey, -⟩
    exact hne (hkey.symm.trans hsets.1)
  have hne : ∀ other ∈ order.filter (· ≠ key), other ∈ order ∧ other ≠ key := by
    intro other hmem
    simpa using hmem
  constructor
  · apply List.pairwise_append.mpr
    refine ⟨?_, List.pairwise_singleton _ _, ?_⟩
    · apply (hbefore.filter _).imp_of_mem
      intro first second hfirst hsecond hlast
      exact (lastBefore_append_iff (hother first (hne first hfirst).2)
        (hother second (hne second hsecond).2)).mpr hlast
    · intro first hfirst second hsecond
      obtain rfl := List.mem_singleton.mp hsecond
      obtain ⟨hlisted, hdifferent⟩ := hne first hfirst
      obtain ⟨place, hplace⟩ := hwas first hlisted
      exact ⟨place, calls.length, (lastAt_append_iff (hother first hdifferent)).mpr hplace,
        lastAt_append_self hsets, hplace.lt_length⟩
  · intro other hmem
    rcases List.mem_append.mp hmem with hkept | hlast
    · obtain ⟨hlisted, hdifferent⟩ := hne other hkept
      obtain ⟨place, hplace⟩ := hwas other hlisted
      exact ⟨place, (lastAt_append_iff (hother other hdifferent)).mpr hplace⟩
    · obtain rfl := List.mem_singleton.mp hlast
      exact ⟨calls.length, lastAt_append_self hsets⟩

/-- Placing a value over the atomic slot of its key puts the key at the end. -/
theorem place (h : RecencyOrder config calls table statuses order)
    (inv : TableInvariant config table left) {result : List Entry} {keyValue : KeyValue}
    {number : ℕ} {call : SetCall} (hsize : 0 < keyValue.size)
    (hperm : result.Perm (convertKeyValueToEntry keyValue number ::
      otherEntries table keyValue.key))
    (hfree : FreeRun config (otherEntries table keyValue.key) number
      (reqEntries config keyValue.size))
    (hinside : number + reqEntries config keyValue.size ≤ statuses.length)
    (hages : ∀ entry ∈ otherEntries table keyValue.key,
      entryTableIsEntryAtomic config entry = true →
        entry.lastReferenced statuses + 1 < 2 ^ 31)
    (hstays : ∀ old ∈ table, old.key = keyValue.key →
      entryTableIsEntryAtomic config old = true → old.number = number)
    (hsets : call.Sets keyValue.key) :
    RecencyOrder config (calls ++ [call]) result
      (entryTableStatusAddKv config statuses keyValue (some number))
      (order.filter (· ≠ keyValue.key) ++ [keyValue.key]) := by
  have hpos : 0 < reqEntries config keyValue.size := reqEntries_pos hsize
  have hothers : AgedInOrder config order (2 ^ 31) [number] (otherEntries table keyValue.key)
      statuses := by
    apply h.ages.restrict
    · intro entry hmem
      exact mem_otherEntries_subset hmem
    · intro entry _ _
      rfl
    · intro i hi hatomic
      obtain ⟨entry, hmem, hentry, rfl⟩ := h.ages.only i (by simp) hatomic
      refine ⟨entry, inv.mem_otherEntries_iff.mpr ⟨hmem, fun hkey => hi ?_⟩, hentry, rfl⟩
      exact List.mem_singleton.mpr (hstays entry hmem hkey hentry)
  obtain ⟨hbefore, hwas⟩ := append_set hsets h.setBefore h.wasSet
  constructor
  case ages =>
    apply hothers.write (2 ^ 31) hsize hperm
    · intro entry hmem
      exact (inv.mem_otherEntries_iff.mp hmem).2
    · intro entry hmem
      exact inv.slots_pos entry (mem_otherEntries_subset hmem)
    · exact hfree
    · exact hinside
    · intro i hi
      obtain rfl := List.mem_singleton.mp hi
      omega
    · decide
    · exact le_refl _
    · intro entry hmem hatomic _
      exact hages entry hmem hatomic
  case setBefore => exact hbefore
  case wasSet => exact hwas
  case listed =>
    intro entry hmem hatomic
    rcases List.mem_cons.mp (hperm.mem_iff.mp hmem) with rfl | hother
    · simp [convertKeyValueToEntry]
    · obtain ⟨htable, hne⟩ := inv.mem_otherEntries_iff.mp hother
      simp [h.listed entry htable hatomic, hne]

/-- Two atomic entries of which the first was not referenced later than the second were set in
this order. -/
theorem setBefore_of_le (h : RecencyOrder config calls table statuses order) {first second : Entry}
    (hfirst : first ∈ table) (hsecond : second ∈ table)
    (hatomic : entryTableIsEntryAtomic config first = true)
    (hatomic' : entryTableIsEntryAtomic config second = true) (hne : first.key ≠ second.key)
    (hle : second.lastReferenced statuses ≤ first.lastReferenced statuses) :
    SetBefore calls first.key second.key := by
  rcases rel_or_rel_of_pairwise (h.ages.aged.and h.setBefore) (h.listed first hfirst hatomic)
    (h.listed second hsecond hatomic') hne with
    ⟨-, hbefore⟩ | ⟨hyounger, -⟩
  · exact hbefore
  · have := hyounger second hsecond first hfirst hatomic' hatomic rfl rfl
    omega

end RecencyOrder

/-! ## What each operation needs -/

variable (config) in
/-- No counter of an atomic entry is the largest `int`. -/
def countersFit (table : List Entry) (statuses : List Status) : Bool :=
  table.all fun entry => !entryTableIsEntryAtomic config entry ||
    decide (entry.lastReferenced statuses + 1 < 2 ^ 31)

variable (config) in
/-- Placing a value keeps the atomic slots and their order: a stored key that is deleted for a
compaction loses its own slot and no other atomic one, a stored key with an atomic slot keeps
its place, and the other counters can count. -/
def placeKeepsRecency (state : InstanceState) (keyValue : KeyValue) : Bool :=
  if entryTableHasContinousEntries config state keyValue then
    match entryTableNextEntry config state keyValue with
    | none => true
    | some nextEntry =>
        -- a value that does not fit behind its place is refused, and changes nothing
        !decide (nextEntry * config.entrySize + keyValue.size ≤
          config.totalEntries * config.entrySize) ||
        (countersFit config (otherEntries state.entryTable keyValue.key)
            state.entryTableStatusGlobal &&
          state.entryTable.all fun old => decide (old.key ≠ keyValue.key) ||
            !entryTableIsEntryAtomic config old || decide (old.number = nextEntry))
  else
    !entryTableHasKey state.entryTable keyValue.key false ||
      state.entryTable.all fun entry => !entryTableIsEntryAtomic config entry ||
        (deleteKvClears keyValue.key state.entryTableStatusGlobal
          (entryTableEntriesNeeded config keyValue) entry.number ==
            decide (entry.key = keyValue.key))

variable (config) in
/-- The same for a call of `instance_set`, once replaced keys are gone. -/
def setKeepsRecency (state : InstanceState) (keyValue : KeyValue) (replacedKeys : List CString) :
    Bool :=
  if newValueFitsWithReplaced config state keyValue then
    match instanceSetReplace config state keyValue replacedKeys with
    | (replaced, _, finished) => !finished || placeKeepsRecency config replaced keyValue
  else true

variable (config) in
/-- A turn of a compaction clears no atomic slot of another key, and the slot of its own key
unless it puts the entry back there. -/
def turnKeepsSlots (state : InstanceState) (entry : Entry) : Bool :=
  let keyValue := keyValueGenerator entry.key entry.size
  state.entryTable.all fun other => !entryTableIsEntryAtomic config other ||
    let cleared := deleteKvClears keyValue.key state.entryTableStatusGlobal
      (entryTableEntriesNeeded config keyValue) other.number
    if other.key = entry.key then
      cleared || decide (searchGap config (entry.slots config)
        (otherEntries state.entryTable entry.key) = some other.number)
    else !cleared

variable (config) in
/-- Every turn of a compaction keeps the atomic slots. -/
def compactKeepsSlots (state : InstanceState) : Bool :=
  (List.range state.entryTable.length).all fun turn =>
    let reached := compactTurns config state turn
    match reached.entryTable[turn]? with
    | some entry => turnKeepsSlots config reached entry
    | none => true

variable (config) in
/-- A compaction meets the atomic entries in the order in which they were referenced, and
every turn keeps the atomic slots. -/
def compactKeepsRecency (state : InstanceState) : Bool :=
  decide (state.entryTable.Pairwise fun first second =>
    entryTableIsEntryAtomic config first = true → entryTableIsEntryAtomic config second = true →
      second.lastReferenced state.entryTableStatusGlobal <
        first.lastReferenced state.entryTableStatusGlobal) &&
  (List.range state.entryTable.length).all fun turn =>
    let reached := compactTurns config state turn
    match reached.entryTable[turn]? with
    | some entry => turnKeepsSlots config reached entry
    | none => true

variable (config) in
/-- The same for a request. -/
def requestKeepsRecency (state : InstanceState) : Request → Bool
  | .set request =>
      if request.isNew || entryTableHasKey state.entryTable request.keyValue.key false then
        let first := instanceSet config state request.keyValue []
        setKeepsRecency config state request.keyValue [] &&
          (!(request.sendOk && decide (first.status = .compact)) ||
            (compactKeepsRecency config first.state &&
              setKeepsRecency config (compactationCompact config first.state) request.keyValue
                first.replacedKeys))
      else true
  | .compact => compactKeepsRecency config state
  | _ => true

/-! ## Every operation keeps the order -/

namespace InstanceInvariant

variable {state : InstanceState} {calls : List SetCall}

theorem recent_replace (inv : InstanceInvariant config state) (hrecent : state.Recent config calls)
    (keyValue : KeyValue) {replacedKeys : List CString}
    (hshort : ∀ key ∈ replacedKeys, key.length ≤ 40)
    (hgone : ∀ key ∈ replacedKeys, entryTableGetEntry state.entryTable key = none) :
    (Instancia.instanceSetReplace config state keyValue replacedKeys).1.Recent config calls := by
  obtain ⟨order, horder⟩ := hrecent
  have hreplace := inv.instanceSetReplace keyValue _ hshort hgone
  obtain ⟨evicted, hkeys, hevicts⟩ := hreplace.evicts
  have hkept := hreplace.mem_iff inv
  refine ⟨order, horder.restrict (horder.ages.evict inv.table hevicts hgone fun entry => ?_) ?_⟩
  · rw [hkept, hkeys]
  · intro entry hmem
    exact ((hkept entry).mp hmem).1

theorem recent_place (inv : InstanceInvariant config state) (hrecent : state.Recent config calls)
    {keyValue : KeyValue} (keys : List CString) (hvalue : keyValue.value ≠ [])
    (hkeeps : placeKeepsRecency config state keyValue = true) :
    (Instancia.instanceSetPlace config state keyValue).1.Recent config
      (calls ++ [⟨keyValue, keys, (Instancia.instanceSetPlace config state keyValue).2⟩]) := by
  obtain ⟨order, horder⟩ := hrecent
  have hsize : 0 < keyValue.size := by
    rw [keyValue.size_eq]
    exact List.length_pos_of_ne_nil hvalue
  simp only [placeKeepsRecency] at hkeeps
  simp only [Instancia.instanceSetPlace]
  cases hcontinous : entryTableHasContinousEntries config state keyValue
  · simp only [hcontinous, Bool.false_eq_true, if_false] at hkeeps
    simp only [Bool.not_false, if_true]
    split
    · rename_i hkey
      simp only [hkey, Bool.not_true, Bool.false_or, List.all_eq_true, Bool.or_eq_true,
        Bool.not_eq_true', beq_iff_eq] at hkeeps
      have hdeleted : AgedInOrder config order (2 ^ 31) []
          (otherEntries state.entryTable keyValue.key)
          (entryTableStatusDeleteKv config state.entryTableStatusGlobal keyValue) := by
        apply horder.ages.delete inv.table
        · intro entry hmem hatomic hne
          rw [(hkeeps entry hmem).resolve_left (by simp [hatomic]), decide_eq_false hne]
        · intro entry hmem hatomic heq
          apply Or.inl
          rw [(hkeeps entry hmem).resolve_left (by simp [hatomic]), decide_eq_true heq]
      obtain ⟨left, hdelete⟩ := entryTableDelete_frame config state keyValue
      rw [hdelete]
      exact ⟨order, (horder.restrict hdeleted fun entry => mem_otherEntries_subset).append_failed
        nofun⟩
    · exact ⟨order, horder.append_failed nofun⟩
  · simp only [hcontinous, if_true] at hkeeps
    simp only [Bool.not_true, Bool.false_eq_true, if_false]
    split
    · exact ⟨order, horder.append_failed nofun⟩
    · rename_i nextEntry hnext
      split
      · exact ⟨order, horder.append_failed nofun⟩
      · rename_i stored hset
        have hinside := inside_of_storageSet hset
        simp only [storageSet] at hset
        split at hset
        · cases hset
        · rename_i hroom
          obtain rfl := Option.some.inj hset
          obtain ⟨table, heq, hperm, -⟩ := entryTableInsert_eq config
            { state with
              storage := writeCells state.storage (nextEntry * config.entrySize)
                ((bytesOf keyValue.value).take keyValue.size) } nextEntry keyValue
          simp only [hnext, Nat.le_of_not_lt hroom, decide_true, Bool.not_true, Bool.false_or,
            Bool.and_eq_true, countersFit, List.all_eq_true, Bool.or_eq_true, Bool.not_eq_true',
            decide_eq_true_eq] at hkeeps
          obtain ⟨hfit, hstays⟩ := hkeeps
          rw [heq]
          refine ⟨_, horder.place inv.table hsize hperm (inv.table.freeRun_of_nextEntry hnext)
            (inv.statuses.length ▸ hinside) ?_ ?_ ⟨rfl, rfl⟩⟩
          · intro entry hmem hatomic
            exact (hfit entry hmem).resolve_left (by simp [hatomic])
          · intro old hmem hkey hatomic
            exact (hstays old hmem).resolve_left (by simp [hatomic, hkey])

theorem recent_set (inv : InstanceInvariant config state) (keyValue : KeyValue)
    (replacedKeys : List CString) (hrecent : state.Recent config calls)
    (hvalue : keyValue.value ≠ []) (hshort : ∀ key ∈ replacedKeys, key.length ≤ 40)
    (hgone : ∀ key ∈ replacedKeys, contents config state key = none)
    (hkeeps : setKeepsRecency config state keyValue replacedKeys = true) :
    (Instancia.instanceSet config state keyValue replacedKeys).state.Recent config
      (calls ++ [⟨keyValue, (Instancia.instanceSet config state keyValue replacedKeys).replacedKeys,
        (Instancia.instanceSet config state keyValue replacedKeys).status⟩]) := by
  have hgone' : ∀ key ∈ replacedKeys, entryTableGetEntry state.entryTable key = none :=
    fun key hmem => Option.map_eq_none_iff.mp (hgone key hmem)
  have hreplace := inv.instanceSetReplace keyValue _ hshort hgone'
  have hreplaced := inv.recent_replace hrecent keyValue hshort hgone'
  simp only [setKeepsRecency] at hkeeps
  simp only [Instancia.instanceSet]
  cases hfits : newValueFitsWithReplaced config state keyValue
  · obtain ⟨order, horder⟩ := hrecent
    exact ⟨order, horder.append_failed fun hok => by cases hok⟩
  simp only [hfits, if_true] at hkeeps
  simp only [Bool.not_true, Bool.false_eq_true, if_false]
  rcases houtcome : Instancia.instanceSetReplace config state keyValue replacedKeys with
    ⟨replaced, keys, _ | _⟩
  · rw [houtcome] at hreplaced
    obtain ⟨order, horder⟩ := hreplaced
    exact ⟨order, horder.append_failed fun hok => by cases hok⟩
  · rw [houtcome] at hreplace hreplaced hkeeps
    exact hreplace.inv.recent_place hreplaced keys hvalue (by simpa using hkeeps)

/-- A turn of a compaction puts the key of its entry at the end. -/
theorem aged_compactEntry (inv : InstanceInvariant config state) {order : List CString} {limit : ℤ}
    (haged : AgedInOrder config order limit [] state.entryTable state.entryTableStatusGlobal)
    (hlow : 0 ≤ limit) (hhigh : limit < 2 ^ 31) {entry : Entry} (hmem : entry ∈ state.entryTable)
    (hkeeps : turnKeepsSlots config state entry = true) :
    AgedInOrder config (order.filter (· ≠ entry.key) ++ [entry.key]) (limit + 1) []
      (Instancia.compactEntry config state entry).entryTable
      (Instancia.compactEntry config state entry).entryTableStatusGlobal := by
  have hkey := keyValueGenerator_key entry.size (inv.table.keyShort entry hmem)
  have hsize : 0 < (keyValueGenerator entry.key entry.size).size := by
    rw [keyValueGenerator_size]
    exact inv.table.nonempty entry hmem
  have hout := inv.takeOut hmem
  obtain ⟨nextEntry, hsearch, hinside, heq⟩ := inv.compactEntry_eq hmem
  simp only [turnKeepsSlots, List.all_eq_true, Bool.or_eq_true, Bool.not_eq_true', hsearch,
    Option.some.injEq] at hkeeps
  have hdeleted : AgedInOrder config order limit [nextEntry]
      (otherEntries state.entryTable (keyValueGenerator entry.key entry.size).key)
      (entryTableStatusDeleteKv config state.entryTableStatusGlobal
        (keyValueGenerator entry.key entry.size)) := by
    apply haged.delete inv.table
    · intro other hother hatomic hne
      have hturn := (hkeeps other hother).resolve_left (by simp [hatomic])
      rw [if_neg (by rwa [hkey] at hne), Bool.not_eq_true'] at hturn
      exact hturn
    · intro other hother hatomic hsame
      have hturn := (hkeeps other hother).resolve_left (by simp [hatomic])
      rw [if_pos (by rwa [hkey] at hsame), Bool.or_eq_true, decide_eq_true_eq] at hturn
      exact hturn.imp id fun hnext => List.mem_singleton.mpr hnext.symm
  rw [heq]
  obtain ⟨table, hinsert, hperm, -⟩ := entryTableInsert_eq config
    { Instancia.takeOut config state entry with
      storage := writeCells state.storage (nextEntry * config.entrySize)
        (storageRetrieve config state entry.number entry.size) } nextEntry
    (keyValueGenerator entry.key entry.size)
  have hgone : otherEntries (otherEntries state.entryTable entry.key) entry.key =
      otherEntries state.entryTable entry.key :=
    otherEntries_of_none (by simp [inv.table.getEntry_otherEntries])
  simp only [putBack, hinsert]
  simp only [Instancia.takeOut, hkey, hgone] at hperm hdeleted hout ⊢
  have hwritten := hdeleted.write (limit + 1) hsize hperm
  rw [hkey] at hwritten
  apply hwritten
  · intro other hother
    exact (inv.table.mem_otherEntries_iff.mp hother).2
  · intro other hother
    exact inv.table.slots_pos other (mem_otherEntries_subset hother)
  · rw [keyValueGenerator_size]
    exact (hout.table.searchGap_sound hsearch).1
  · rw [keyValueGenerator_size, length_entryTableStatusDeleteKv, inv.statuses.length]
    exact hinside
  · intro i hi
    obtain rfl := List.mem_singleton.mp hi
    have : 0 < reqEntries config (keyValueGenerator entry.key entry.size).size :=
      reqEntries_pos hsize
    omega
  · omega
  · omega
  · intro other hother hatomic hlisted
    have := (hdeleted.range other hother hatomic hlisted).2
    omega

/-- After some turns of a compaction, the keys that were met are aged in this order. -/
theorem aged_compactTurns (inv : InstanceInvariant config state) {order : List CString} {limit : ℤ}
    (haged : AgedInOrder config order limit [] state.entryTable state.entryTableStatusGlobal)
    (hkeeps : compactKeepsSlots config state = true) {turns : ℕ}
    (hturns : turns ≤ state.entryTable.length) :
    AgedInOrder config ((state.entryTable.take turns).map Entry.key) turns []
      (Instancia.compactTurns config state turns).entryTable
      (Instancia.compactTurns config state turns).entryTableStatusGlobal := by
  induction turns with
  | zero => exact haged.forget 0
  | succ turns ih =>
      have hlt : turns < state.entryTable.length := hturns
      have hentry : (Instancia.compactTurns config state turns).entryTable[turns]? =
          some state.entryTable[turns] := by
        rw [inv.compactTurns_packed hlt.le, List.getElem?_append_right (by simp)]
        simp [Nat.min_eq_left hlt.le, hlt]
      have hfresh : state.entryTable[turns].key ∉ (state.entryTable.take turns).map Entry.key := by
        have hnodup := inv.table.keysDistinct.sublist
          ((List.take_sublist (turns + 1) state.entryTable).map Entry.key)
        rw [List.take_succ_eq_append_getElem hlt, List.map_append, List.map_singleton] at hnodup
        exact (List.nodup_middle.mp hnodup).notMem ∘ (by simp)
      have hslots : turnKeepsSlots config (Instancia.compactTurns config state turns)
          state.entryTable[turns] = true := by
        have hturn := List.all_eq_true.mp hkeeps turns (List.mem_range.mpr hlt)
        simpa only [hentry] using hturn
      have hsmall : state.entryTable.length < 2 ^ 31 :=
        inv.table.length_le.trans_lt config.setup.totalEntries_lt
      have hstep := (inv.compactTurns turns).1.aged_compactEntry (ih hlt.le) (by omega) (by omega)
        (List.mem_of_getElem? hentry) hslots
      rw [List.filter_eq_self.mpr fun key hmem => by
        simp only [ne_eq, decide_not, Bool.not_eq_true', decide_eq_false_iff_not]
        rintro rfl
        exact hfresh hmem] at hstep
      simp only [Instancia.compactTurns, Instancia.compactTurn, hentry]
      rw [List.take_succ_eq_append_getElem hlt, List.map_append, List.map_singleton]
      exact_mod_cast hstep

/-- A compaction that meets the atomic entries in the order of their SETs keeps the order. -/
theorem recent_compact (inv : InstanceInvariant config state) (hrecent : state.Recent config calls)
    (hkeeps : compactKeepsRecency config state = true) :
    (Instancia.compactationCompact config state).Recent config calls := by
  obtain ⟨order, horder⟩ := hrecent
  have hsub : ((state.entryTable.filter (entryTableIsEntryAtomic config)).map Entry.key).Sublist
      (state.entryTable.map Entry.key) := List.filter_sublist.map _
  have hages := inv.aged_compactTurns horder.ages (Bool.and_eq_true_iff.mp hkeeps).2 (le_refl _)
  rw [List.take_length] at hages
  have hsmall : state.entryTable.length < 2 ^ 31 :=
    inv.table.length_le.trans_lt config.setup.totalEntries_lt
  have hmem : ∀ entry ∈ state.entryTable.filter (entryTableIsEntryAtomic config),
      entry ∈ state.entryTable ∧ entryTableIsEntryAtomic config entry = true :=
    fun entry => List.mem_filter.mp
  refine ⟨_, (hages.sublist hsub).mono (by exact_mod_cast hsmall.le), ?_, ?_, ?_⟩
  · simp only [compactKeepsRecency, Bool.and_eq_true, decide_eq_true_eq] at hkeeps
    have hdistinct := List.pairwise_map.mp inv.table.keysDistinct
    apply List.pairwise_map.mpr
    apply ((hkeeps.1.and hdistinct).filter _).imp_of_mem
    rintro first second hfirst hsecond ⟨hyounger, hne⟩
    obtain ⟨htable, hatomic⟩ := hmem first hfirst
    obtain ⟨htable', hatomic'⟩ := hmem second hsecond
    exact horder.setBefore_of_le htable htable' hatomic hatomic' hne (hyounger hatomic hatomic').le
  · intro key hkey
    obtain ⟨entry, hentry, rfl⟩ := List.mem_map.mp hkey
    obtain ⟨htable, hatomic⟩ := hmem entry hentry
    exact horder.wasSet entry.key (horder.listed entry htable hatomic)
  · intro entry hentry hatomic
    rw [inv.compactationCompact_packed] at hentry
    obtain ⟨original, horiginal, hkey, hsize⟩ := exists_of_mem_packFrom hentry
    rw [hkey]
    apply List.mem_map_of_mem
    apply List.mem_filter.mpr
    refine ⟨horiginal, ?_⟩
    simpa only [entryTableIsEntryAtomic, hsize] using hatomic

end InstanceInvariant

theorem instanceThreadApiSet_of_unhandled {state : InstanceState} {request : SetRequest}
    (hunknown : (request.isNew ||
      entryTableHasKey state.entryTable request.keyValue.key false) = false) :
    (instanceThreadApiSet config state request).calls = [] := by
  obtain ⟨hold, habsent⟩ := Bool.or_eq_false_iff.mp hunknown
  simp [instanceThreadApiSet, hold, habsent]

namespace InstanceInvariant

variable {state : InstanceState} {calls : List SetCall}

/-- The state after the first call of a request that is handled, and after a compaction. -/
theorem recent_stages (inv : InstanceInvariant config state) (hrecent : state.Recent config calls)
    {request : SetRequest} (hhandled : (request.isNew ||
      entryTableHasKey state.entryTable request.keyValue.key false) = true)
    (hkeeps : requestKeepsRecency config state (.set request) = true) :
    let first := Instancia.instanceSet config state request.keyValue []
    let after := calls ++ [⟨request.keyValue, first.replacedKeys, first.status⟩]
    first.state.Recent config after ∧
      (request.sendOk = true → first.status = .compact →
        (Instancia.compactationCompact config first.state).Recent config after ∧
        setKeepsRecency config (Instancia.compactationCompact config first.state)
          request.keyValue first.replacedKeys = true) := by
  intro first after
  simp only [requestKeepsRecency, hhandled, if_true, Bool.and_eq_true, Bool.or_eq_true,
    Bool.not_eq_true', Bool.and_eq_false_iff, decide_eq_false_iff_not] at hkeeps
  obtain ⟨hset, hcompact⟩ := hkeeps
  have hfirst := inv.recent_set request.keyValue [] hrecent request.value_ne (by simp) (by simp)
    hset
  refine ⟨hfirst, fun hsend hstatus => ?_⟩
  obtain ⟨hcompactKeeps, hsecond⟩ := hcompact.resolve_left (by simp [hsend, first, hstatus])
  obtain ⟨hinv, -, -⟩ := inv.instanceSet request.keyValue [] request.value_ne (by simp) (by simp)
  exact ⟨hinv.recent_compact hfirst hcompactKeeps, hsecond⟩

theorem recent_request (inv : InstanceInvariant config state)
    (hrecent : state.Recent config calls) {request : Request}
    (hkeeps : requestKeepsRecency config state request = true) {next : InstanceState}
    {newCalls : List SetCall}
    (hhandle : Instancia.handleRequest config state request = some (next, newCalls)) :
    next.Recent config (calls ++ newCalls) := by
  obtain ⟨-, ⟨request, rfl, rfl, rfl⟩ | ⟨rfl, rfl, rfl⟩ | ⟨-, rfl, dumper, alive, rfl⟩⟩ :=
    handleRequest_cases hhandle
  · cases hhandled : (request.isNew ||
      entryTableHasKey state.entryTable request.keyValue.key false)
    · rw [instanceThreadApiSet_state_of_unknown hhandled,
        instanceThreadApiSet_of_unhandled hhandled, List.append_nil]
      exact hrecent
    · obtain ⟨hfirst, hcompact⟩ := inv.recent_stages hrecent hhandled hkeeps
      rcases instanceThreadApiSet_cases config hhandled with
        ⟨alive, hstate, hcalls⟩ | ⟨hsend, hstatus, hstate, hcalls⟩
      · rw [hstate, hcalls]
        exact hfirst
      · obtain ⟨hcompacted, hsecond⟩ := hcompact hsend hstatus
        obtain ⟨hinv, hshort, hgone⟩ := inv.second_call request.value_ne hstatus
        rw [hstate, hcalls, List.append_cons]
        exact hinv.recent_set _ _ hcompacted request.value_ne hshort hgone hsecond
  · rw [List.append_nil]
    exact inv.recent_compact hrecent hkeeps
  · rw [List.append_nil]
    exact hrecent

end InstanceInvariant

/-- The tables of an empty instance. -/
theorem recent_instanceInit (mountPoint : CString) :
    (instanceInit config mountPoint).Recent config [] := by
  have hfree : ∀ i, (statusAt (instanceInit config mountPoint).entryTableStatusGlobal i).status ≠
      .atomic := by
    intro i hatomic
    have hslot := getElem?_of_atomic hatomic
    have hunclaimed : CoherentStatus config []
        (instanceInit config mountPoint).entryTableStatusGlobal := CoherentStatus.init
    exact hunclaimed.unoccupied i _ hslot (by simp) (.inl hatomic)
  refine ⟨[], ⟨?_, fun i _ hatomic => absurd hatomic (hfree i), ?_, .nil⟩, .nil, ?_, ?_⟩
  · simp [instanceInit, entryTableStatusInit, entryTableInit]
  · simp
  · simp
  · simp [instanceInit, entryTableStatusInit, entryTableInit]

/-- In every run whose requests keep the order, the counters follow the last successful SETs. -/
theorem recent_of_runs {mountPoint : CString} {events : List Request} {finish : TracedInstance}
    (hrun : (instanceStep config).Runs
      (fun traced request => requestKeepsRecency config traced.state request = true)
      (freshInstance config mountPoint) events finish) :
    InstanceInvariant config finish.state ∧ finish.state.Recent config finish.calls := by
  refine hrun.invariant
    (fun traced => InstanceInvariant config traced.state ∧
      traced.state.Recent config traced.calls)
    ?_ ⟨instanceInit_invariant mountPoint, recent_instanceInit mountPoint⟩
  rintro traced request next ⟨hinv, hrecent⟩ hkeeps hstep
  simp only [instanceStep, Option.map_eq_some_iff] at hstep
  obtain ⟨⟨state, calls⟩, hhandle, rfl⟩ := hstep
  exact ⟨(hinv.handleRequest hhandle).1, hinv.recent_request hrecent hkeeps hhandle⟩

end SockMyPort.Instancia
