/-
# Replacing the keys that were set longest ago

The policy by age sorts the slots by their counters, the oldest first, and gives up atomic ones
until enough entries are free. Where the counters follow the last successful SETs, these are
the keys that were set longest ago.
-/

import SockMyPort.Instancia.Recency
import SockMyPort.Instancia.AtomicSlots
import SockMyPort.Instancia.SetAnswer

namespace SockMyPort.Instancia

open SockMyPort.Commons Library

variable {config : Config}

/-! ## What a replacement is to do -/

/-- A call of `instance_set` as it begins, after some calls. -/
structure SetStart where
  calls : List SetCall
  state : InstanceState
  keyValue : KeyValue
  replacedKeys : List CString

variable (config) in
/-- The call, as it returns. -/
def SetStart.call (start : SetStart) : SetCall :=
  let result := instanceSet config start.state start.keyValue start.replacedKeys
  ⟨start.keyValue, result.replacedKeys, result.status⟩

variable (config) in
/-- The calls that a request leads to, as they begin. -/
def setStarts (traced : TracedInstance) : Request → List SetStart
  | .set request =>
      let keyValue := request.keyValue
      if traced.state.instanceIsAlive && (request.isNew ||
          entryTableHasKey traced.state.entryTable keyValue.key request.isNew) then
        let first : SetStart := ⟨traced.calls, traced.state, keyValue, []⟩
        let result := instanceSet config traced.state keyValue []
        first :: if request.sendOk && decide (result.status = .compact) then
          [⟨traced.calls ++ [first.call config], compactationCompact config result.state, keyValue,
            result.replacedKeys⟩]
        else []
      else []
  | _ => []

/-- A call begins a SET request, or it repeats the first call after the compaction. -/
theorem setStarts_cases {traced : TracedInstance} {request : Request} {start : SetStart}
    (hmem : start ∈ setStarts config traced request) :
    ∃ set : SetRequest, request = .set set ∧ traced.state.instanceIsAlive = true ∧
      (set.isNew || entryTableHasKey traced.state.entryTable set.keyValue.key false) = true ∧
      let first : SetStart := ⟨traced.calls, traced.state, set.keyValue, []⟩
      let result := instanceSet config traced.state set.keyValue []
      (start = first ∨ set.sendOk = true ∧ result.status = .compact ∧
        start = ⟨traced.calls ++ [first.call config], compactationCompact config result.state,
          set.keyValue, result.replacedKeys⟩) := by
  cases request with
  | set set =>
      simp only [setStarts] at hmem
      split at hmem
      · rename_i hhandled
        rw [Bool.and_eq_true] at hhandled
        have hcase : (set.isNew ||
            entryTableHasKey traced.state.entryTable set.keyValue.key false) = true := by
          cases hisNew : set.isNew
          · simpa [hisNew] using hhandled.2
          · rfl
        refine ⟨set, rfl, hhandled.1, hcase, ?_⟩
        rcases List.mem_cons.mp hmem with hfirst | hsecond
        · exact .inl hfirst
        · split at hsecond
          · rename_i hcompact
            rw [Bool.and_eq_true, decide_eq_true_eq] at hcompact
            exact .inr ⟨hcompact.1, hcompact.2, List.mem_singleton.mp hsecond⟩
          · cases hsecond
      · cases hmem
  | store key sendOk => cases hmem
  | compact => cases hmem
  | requestValue key sendOk => cases hmem
  | isAlive => cases hmem
  | kill => cases hmem
  | dump => cases hmem

/-- Every call of a request begins with the invariant and without the keys replaced before. -/
theorem InstanceInvariant.setStart {traced : TracedInstance}
    (inv : InstanceInvariant config traced.state) {request : Request} {start : SetStart}
    (hmem : start ∈ setStarts config traced request) :
    InstanceInvariant config start.state ∧ start.keyValue.value ≠ [] ∧
      (∀ key ∈ start.replacedKeys, key.length ≤ 40) ∧
      ∀ key ∈ start.replacedKeys, entryTableGetEntry start.state.entryTable key = none := by
  obtain ⟨set, -, -, -, rfl | ⟨-, hstatus, rfl⟩⟩ := setStarts_cases hmem
  · exact ⟨inv, set.value_ne, by simp, by simp⟩
  · obtain ⟨hcompacted, hshort, hgone⟩ := inv.second_call set.value_ne hstatus
    refine ⟨hcompacted, set.value_ne, hshort, fun key hkey => ?_⟩
    exact Option.map_eq_none_iff.mp (hgone key hkey)

variable (config) in
/-- A key that is not in the table needs a replacement, which can make room. -/
structure NeedsReplacement (state : InstanceState) (keyValue : KeyValue) : Prop where
  absent : entryTableGetEntry state.entryTable keyValue.key = none
  fits : newValueFitsWithReplaced config state keyValue = true
  short : entryTableHasEntries config state keyValue = false

variable (config) in
/-- So many distinct atomic keys of the table, and every other atomic key was set after them. -/
structure LeastRecentlySet (calls : List SetCall) (state : InstanceState) (count : ℤ)
    (keys : List CString) : Prop where
  length : keys.length = count
  nodup : keys.Nodup
  atomic : ∀ key ∈ keys, ∃ entry, entryTableGetEntry state.entryTable key = some entry ∧
    entryTableIsEntryAtomic config entry = true
  oldest : ∀ entry ∈ state.entryTable, entryTableIsEntryAtomic config entry = true →
    entry.key ∉ keys → ∀ key ∈ keys, SetBefore calls key entry.key

/-! ## Which keys these are -/

variable (config) in
/-- The atomic slots in the order in which `algorithm_lru` meets them. -/
def atomicByReference (table : List Status) : List ℕ :=
  (config.sort.listSort
    (fun first second => smallestReference (statusAt table first) (statusAt table second))
    (List.range table.length)).filter (isAtomicAt table)

theorem atomicByReference_pairwise (config : Config) (table : List Status) :
    (atomicByReference config table).Pairwise fun first second =>
      (statusAt table second).lastReferenced ≤ (statusAt table first).lastReferenced := by
  apply List.Pairwise.filter
  have hsorted := config.sort.pairwise
    (fun first second => smallestReference (statusAt table first) (statusAt table second))
    (List.range table.length)
    (fun a b => by
      simp only [smallestReference, Bool.or_eq_true, Bool.not_eq_true', decide_eq_false_iff_not]
      omega)
    (fun a b c => by
      simp only [smallestReference, Bool.not_eq_true', decide_eq_false_iff_not]
      omega)
  apply hsorted.imp
  intro first second hle
  simpa [smallestReference] using hle

theorem nodup_listSort_range (comparator : ℕ → ℕ → Bool) (length : ℕ) :
    (config.sort.listSort comparator (List.range length)).Nodup :=
  (config.sort.perm comparator _).nodup_iff.mpr List.nodup_range

theorem algorithmLru_replacedKeys {state : InstanceState} {keyValue : KeyValue}
    (hshort : entryTableHaveEntries config state keyValue = false)
    (hfits : newValueFits config state keyValue = true) (replacedKeys : List CString) :
    (algorithmLru config state (List.range state.entryTableStatusGlobal.length) keyValue
        replacedKeys).replacedKeys =
      replacedKeys ++ ((atomicByReference config state.entryTableStatusGlobal).take
        (entryTableEntriesNeeded config keyValue - state.entriesLeft).toNat).map
          fun slot => (statusAt state.entryTableStatusGlobal slot).key := by
  simp only [entryTableHaveEntries, decide_eq_false_iff_not] at hshort
  simp only [algorithmLru, entryTableHaveEntries, hshort, hfits, decide_false, Bool.not_false,
    Bool.and_self, if_true]
  rw [Replacement.scan_eq (nodup_listSort_range _ _) _ (by simp only; omega)]
  rfl

theorem mem_atomicByReference {table : List Status} {slot : ℕ} :
    slot ∈ atomicByReference config table ↔ isAtomicAt table slot = true := by
  rw [atomicByReference, List.mem_filter, (config.sort.perm _ _).mem_iff, List.mem_range,
    and_iff_right_iff_imp]
  intro hatomic
  exact (List.getElem?_eq_some_iff.mp (getElem?_of_atomic (of_decide_eq_true hatomic))).1

theorem nodup_atomicByReference (config : Config) (table : List Status) :
    (atomicByReference config table).Nodup :=
  (nodup_listSort_range _ _).filter _

/-- The first slots of this order have the keys that were set longest ago. -/
theorem RecencyOrder.leastRecentlySet {calls : List SetCall} {state : InstanceState}
    {order : List CString}
    (h : RecencyOrder config calls state.entryTable state.entryTableStatusGlobal order)
    (inv : TableInvariant config state.entryTable state.entriesLeft) (count : ℕ)
    (hcount : count ≤ entryTableAtomicEntriesCount config state.entryTable) :
    LeastRecentlySet config calls state count
      (((atomicByReference config state.entryTableStatusGlobal).take count).map
        fun slot => (statusAt state.entryTableStatusGlobal slot).key) := by
  have hslots := h.ages.atomicSlots
  have hperm := hslots.perm inv (nodup_atomicByReference config _) fun _ => mem_atomicByReference
  have hlength : count ≤ (atomicByReference config state.entryTableStatusGlobal).length := by
    rw [hslots.length_eq inv (nodup_atomicByReference config _) fun _ => mem_atomicByReference]
    exact hcount
  have htaken := hslots.atomicKeys inv ((nodup_atomicByReference config _).sublist
    (List.take_sublist count _)) fun _ hslot =>
      mem_atomicByReference.mp (List.mem_of_mem_take hslot)
  constructor
  case length => rw [htaken.length, List.length_take_of_le hlength]
  case nodup => exact htaken.nodup
  case atomic => exact htaken.atomic
  case oldest =>
    intro kept hkept hatomic hlisted key hkey
    obtain ⟨slot, hslot, rfl⟩ := List.mem_map.mp hkey
    obtain ⟨entry, hmem, hatomic', rfl, hname⟩ := hslots.entry_of_atomic
      (mem_atomicByReference.mp (List.mem_of_mem_take hslot))
    have hown := h.ages.own kept hkept hatomic
    have hafter : kept.number ∈
        (atomicByReference config state.entryTableStatusGlobal).drop count := by
      have hall : kept.number ∈ atomicByReference config state.entryTableStatusGlobal :=
        hperm.mem_iff.mpr (List.mem_map_of_mem (List.mem_filter.mpr ⟨hkept, hatomic⟩))
      rw [← List.take_append_drop count (atomicByReference config state.entryTableStatusGlobal)]
        at hall
      refine (List.mem_append.mp hall).resolve_left fun htaken => hlisted ?_
      exact List.mem_map.mpr ⟨kept.number, htaken, hown.2⟩
    have hsorted := atomicByReference_pairwise config state.entryTableStatusGlobal
    rw [← List.take_append_drop count (atomicByReference config state.entryTableStatusGlobal)]
      at hsorted
    have hle := (List.pairwise_append.mp hsorted).2.2 entry.number hslot kept.number hafter
    rw [hname]
    refine h.setBefore_of_le hmem hkept hatomic' hatomic (fun hsame => hlisted ?_) hle
    rw [← hsame, ← hname]
    exact hkey

/-! ## The calls of `instance_set` -/

/-- The replacement step under the policy by age. -/
theorem instanceSetReplace_of_lru (hlru : config.replacementAlgorithm = .lru)
    {state : InstanceState} {keyValue : KeyValue}
    (hshort : entryTableHasEntries config state keyValue = false) (replacedKeys : List CString) :
    let executed := algorithmLru config state (List.range state.entryTableStatusGlobal.length)
      keyValue replacedKeys
    (instanceSetReplace config state keyValue replacedKeys).1.entriesLeft =
        (entryTableDeleteFew config executed.state executed.replacedKeys).entriesLeft ∧
      (instanceSetReplace config state keyValue replacedKeys).2.1 = executed.replacedKeys := by
  intro executed
  have hresult : executed.result ≠ 0 := by
    simp only [executed, algorithmLru]
    split <;> simp
  simp only [instanceSetReplace, hshort, Bool.not_false, if_true, algorithmsExec, hlru]
  rw [if_neg hresult]
  exact ⟨rfl, rfl⟩

theorem instanceSet_replacedKeys {state : InstanceState} {keyValue : KeyValue}
    (hfits : newValueFitsWithReplaced config state keyValue = true) (replacedKeys : List CString) :
    (instanceSet config state keyValue replacedKeys).replacedKeys =
      (instanceSetReplace config state keyValue replacedKeys).2.1 := by
  simp only [instanceSet, hfits, Bool.not_true, Bool.false_eq_true, if_false]
  split <;> simp [*]

/-- Deleting distinct atomic keys frees an entry for each. -/
theorem InstanceInvariant.entriesLeft_entryTableDeleteFew {state : InstanceState}
    (inv : TableInvariant config state.entryTable state.entriesLeft) {keys : List CString}
    (hnodup : keys.Nodup) (hatomic : ∀ key ∈ keys,
      ∃ entry, entryTableGetEntry state.entryTable key = some entry ∧
        entryTableIsEntryAtomic config entry = true) :
    (Instancia.entryTableDeleteFew config state keys).entriesLeft =
      state.entriesLeft + keys.length := by
  induction keys generalizing state with
  | nil => simp [Instancia.entryTableDeleteFew]
  | cons key keys ih =>
      obtain ⟨hfresh, hrest⟩ := List.nodup_cons.mp hnodup
      obtain ⟨entry, hget, hentry⟩ := hatomic key (List.mem_cons_self ..)
      have hmem := mem_of_getEntry hget
      have hkey : (keyValueGenerator key 0).key = key := by
        rw [← key_of_getEntry hget]
        exact keyValueGenerator_key 0 (inv.keyShort entry hmem)
      have hone := reqEntries_of_atomic hentry (inv.nonempty entry hmem)
      rw [Instancia.entryTableDeleteFew, List.foldl_cons, ← Instancia.entryTableDeleteFew,
        ih (inv.entryTableDelete _) hrest]
      · rw [TableInvariant.entriesLeft_entryTableDelete, hkey, hget]
        simp only [Option.elim_some, Entry.slots, hone, List.length_cons]
        omega
      · intro other hother
        have hne : other ≠ key := by
          rintro rfl
          exact hfresh hother
        rw [entryTable_entryTableDelete, hkey, inv.getEntry_otherEntries, if_neg hne]
        exact hatomic other (List.mem_cons_of_mem _ hother)

namespace InstanceInvariant

variable {state : InstanceState} {calls : List SetCall}

/-- The keys that a call gives up, whether its key is stored or not. -/
theorem leastRecentlySet_of_short (inv : InstanceInvariant config state)
    (hrecent : state.Recent config calls) {keyValue : KeyValue}
    (hshort : entryTableHaveEntries config state keyValue = false)
    (hfits : newValueFits config state keyValue = true) :
    LeastRecentlySet config calls state
      (entryTableEntriesNeeded config keyValue - state.entriesLeft)
      (algorithmLru config state (List.range state.entryTableStatusGlobal.length) keyValue
        []).replacedKeys := by
  obtain ⟨order, horder⟩ := hrecent
  rw [algorithmLru_replacedKeys hshort hfits, List.nil_append]
  simp only [entryTableHaveEntries, decide_eq_false_iff_not] at hshort
  simp only [newValueFits, decide_eq_true_eq] at hfits
  have hchosen := horder.leastRecentlySet inv.table
    (entryTableEntriesNeeded config keyValue - state.entriesLeft).toNat (by omega)
  rwa [Int.toNat_of_nonneg (by omega)] at hchosen

/-- A first call that gave keys up has made room for the value. -/
theorem room_of_replaced (inv : InstanceInvariant config state)
    (hrecent : state.Recent config calls) (hlru : config.replacementAlgorithm = .lru)
    {keyValue : KeyValue}
    (hcompact : (Instancia.instanceSet config state keyValue []).status = .compact)
    (hkeys : (Instancia.instanceSet config state keyValue []).replacedKeys ≠ []) :
    (entryTableEntriesNeeded config keyValue : ℤ) ≤
      (Instancia.instanceSet config state keyValue []).state.entriesLeft := by
  cases hfits : newValueFitsWithReplaced config state keyValue
  · simp [Instancia.instanceSet, hfits] at hcompact
  rw [instanceSet_replacedKeys hfits] at hkeys
  cases hshort : entryTableHasEntries config state keyValue
  · obtain ⟨hleft, hexecuted⟩ := instanceSetReplace_of_lru hlru hshort []
    obtain ⟨evicted, hreplaces⟩ := algorithmLru_replaces config state
      (List.range state.entryTableStatusGlobal.length) keyValue []
    obtain ⟨statuses, pointer, hframe⟩ := hreplaces.frame
    rw [hexecuted] at hkeys
    cases hguard :
      !entryTableHaveEntries config state keyValue && newValueFits config state keyValue
    · simp [algorithmLru, hguard] at hkeys
    rw [Bool.and_eq_true, Bool.not_eq_true'] at hguard
    have hchosen := inv.leastRecentlySet_of_short hrecent hguard.1 hguard.2
    have hmade : (Instancia.instanceSetReplace config state keyValue []).1.entriesLeft =
        entryTableEntriesNeeded config keyValue := by
      rw [hleft, entriesLeft_entryTableDeleteFew (by rw [hframe]; exact inv.table) hchosen.nodup
        (by rw [hframe]; exact hchosen.atomic), hchosen.length, hframe]
      simp only
      omega
    rcases houtcome : Instancia.instanceSetReplace config state keyValue [] with
      ⟨replaced, keys, _ | _⟩
    · simp [Instancia.instanceSet, hfits, houtcome] at hcompact
    · rw [instanceSet_eq_place hfits houtcome] at hcompact ⊢
      rw [houtcome] at hmade
      cases hcontinous : entryTableHasContinousEntries config replaced keyValue
      · rw [(instanceSetPlace_of_not_continous hcontinous).2.1,
          TableInvariant.entriesLeft_entryTableDelete]
        simp only at hmade
        cases entryTableGetEntry replaced.entryTable keyValue.key with
        | none => simp [hmade]
        | some old =>
            simp only [Option.elim_some, hmade]
            omega
      · exact absurd hcompact (instanceSetPlace_ne_compact hcontinous)
  · simp [Instancia.instanceSetReplace, hshort] at hkeys

/-- Every call of a request begins with counters that follow the last successful SETs, and one
that needs a replacement begins without replaced keys. -/
theorem recent_setStarts {traced : TracedInstance}
    (inv : InstanceInvariant config traced.state)
    (hrecent : traced.state.Recent config traced.calls) (hlru : config.replacementAlgorithm = .lru)
    {request : Request} (hkeeps : requestKeepsRecency config traced.state request = true)
    {start : SetStart} (hmem : start ∈ setStarts config traced request) :
    InstanceInvariant config start.state ∧ start.state.Recent config start.calls ∧
      (NeedsReplacement config start.state start.keyValue → start.replacedKeys = []) := by
  obtain ⟨set, rfl, -, hcase, rfl | ⟨hsend, hstatus, rfl⟩⟩ := setStarts_cases hmem
  · exact ⟨inv, hrecent, fun _ => rfl⟩
  · obtain ⟨-, hstage⟩ := inv.recent_stages hrecent hcase hkeeps
    obtain ⟨hfirst, -, -⟩ := inv.instanceSet set.keyValue [] set.value_ne (by simp) (by simp)
    obtain ⟨hcompacted, -, hleft⟩ := hfirst.compactationCompact
    refine ⟨hcompacted, (hstage hsend hstatus).1, fun hneeds => ?_⟩
    -- a first call that gave keys up made room, so that the second needs no replacement
    by_contra hkeys
    have hroom := inv.room_of_replaced hrecent hlru hstatus hkeys
    have hshort := hneeds.short
    simp only [entryTableHasEntries, diffEntries_of_none config hneeds.absent, hleft,
      decide_eq_false_iff_not] at hshort
    exact hshort hroom

/-- A new key replaces the keys that were set longest ago. -/
theorem leastRecentlySet_of_needs (inv : InstanceInvariant config state)
    (hrecent : state.Recent config calls) (hlru : config.replacementAlgorithm = .lru)
    {keyValue : KeyValue} (hneeds : NeedsReplacement config state keyValue) :
    LeastRecentlySet config calls state
      (entryTableEntriesNeeded config keyValue - state.entriesLeft)
      (Instancia.instanceSet config state keyValue []).replacedKeys := by
  have hshort := hneeds.short
  have hfits := hneeds.fits
  obtain ⟨-, hkeys⟩ := instanceSetReplace_of_lru hlru hshort []
  rw [instanceSet_replacedKeys hfits, hkeys]
  simp only [entryTableHasEntries, newValueFitsWithReplaced,
    diffEntries_of_none config hneeds.absent] at hshort hfits
  exact inv.leastRecentlySet_of_short hrecent hshort hfits

end InstanceInvariant

/-! ## Runs -/

/-- **A new key replaces the keys that were set longest ago**, in every run whose requests keep
the order of the counters. -/
theorem leastRecentlySet_of_runs (hlru : config.replacementAlgorithm = .lru)
    {mountPoint : CString} {events : List Request} {finish : TracedInstance}
    (hrun : (instanceStep config).Runs
      (fun traced request => requestKeepsRecency config traced.state request = true)
      (freshInstance config mountPoint) events finish)
    {request : Request} (hkeeps : requestKeepsRecency config finish.state request = true) :
    ∀ start ∈ setStarts config finish request,
      NeedsReplacement config start.state start.keyValue →
        LeastRecentlySet config start.calls start.state
          (entryTableEntriesNeeded config start.keyValue - start.state.entriesLeft)
          (start.call config).replacedKeys := by
  intro start hmem hneeds
  obtain ⟨hinv, hrecent⟩ := recent_of_runs hrun
  obtain ⟨hstart, hbefore, hempty⟩ := hinv.recent_setStarts hrecent hlru hkeeps hmem
  simp only [SetStart.call, hempty hneeds]
  exact hstart.leastRecentlySet_of_needs hbefore hlru hneeds

/-- Two entries of one byte, replaced by age. -/
def twoEntries : Config where
  setup := ⟨2, 1, Nat.two_pos, Nat.one_pos, by decide⟩
  replacementAlgorithm := .lru
  sort := insertionListSort

/-- A SET of a key of one byte to a value of one. -/
def setOneByte (isNew : Bool) (key : UInt8) : SetRequest :=
  ⟨isNew, literal [key], literal [120], literal_x_ne, true⟩

/-- Two keys fill the entries, and the first one is set again: a third one replaces the second. -/
theorem leastRecentlySet_of_runs_again : ∃ finish,
    (instanceStep twoEntries).Runs
      (fun traced request => requestKeepsRecency twoEntries traced.state request = true)
      (freshInstance twoEntries [])
      [.set (setOneByte true 97), .set (setOneByte true 98), .set (setOneByte false 97)] finish ∧
    ∃ start ∈ setStarts twoEntries finish (.set (setOneByte true 99)),
      (start.call twoEntries).replacedKeys = [literal [98]] ∧
        LeastRecentlySet twoEntries start.calls start.state 1 [literal [98]] := by
  obtain ⟨finish, hrun, hcheck⟩ := PartialStep.exists_run_of_execute
    ((instanceStep twoEntries).guarded fun traced request =>
      requestKeepsRecency twoEntries traced.state request) (freshInstance twoEntries [])
    [.set (setOneByte true 97), .set (setOneByte true 98), .set (setOneByte false 97)]
    (fun traced =>
      let keyValue := (setOneByte true 99).keyValue
      traced.state.instanceIsAlive &&
      requestKeepsRecency twoEntries traced.state (.set (setOneByte true 99)) &&
      (entryTableGetEntry traced.state.entryTable keyValue.key).isNone &&
      newValueFitsWithReplaced twoEntries traced.state keyValue &&
      !entryTableHasEntries twoEntries traced.state keyValue &&
      decide (traced.state.entriesLeft = 0) &&
      decide ((instanceSet twoEntries traced.state keyValue []).replacedKeys = [literal [98]]))
    (by decide +kernel)
  simp only [Bool.and_eq_true, Option.isNone_iff_eq_none, Bool.not_eq_true', decide_eq_true_eq]
    at hcheck
  obtain ⟨⟨⟨⟨⟨⟨halive, hkeeps⟩, habsent⟩, hfits⟩, hshort⟩, hleft⟩, hkeys⟩ := hcheck
  have hrun' := PartialStep.runs_of_guarded hrun
  have hmem : (⟨finish.calls, finish.state, (setOneByte true 99).keyValue, []⟩ : SetStart) ∈
      setStarts twoEntries finish (.set (setOneByte true 99)) := by
    simp [setStarts, halive, setOneByte]
  have hchosen := leastRecentlySet_of_runs rfl hrun' hkeeps _ hmem ⟨habsent, hfits, hshort⟩
  simp only [SetStart.call, hkeys, hleft] at hchosen
  exact ⟨finish, hrun', _, hmem, hkeys, hchosen⟩

/-- After a compaction the key that was set again is replaced. -/
theorem not_leastRecentlySet :
    ¬ ∀ (config : Config) (mountPoint : CString) (events : List Request) (finish : TracedInstance)
      (request : Request), config.replacementAlgorithm = .lru →
      (instanceStep config).FreeRuns (freshInstance config mountPoint) events finish →
      ∀ start ∈ setStarts config finish request,
        NeedsReplacement config start.state start.keyValue →
          LeastRecentlySet config start.calls start.state
            (entryTableEntriesNeeded config start.keyValue - start.state.entriesLeft)
            (start.call config).replacedKeys := by
  intro hclaim
  obtain ⟨finish, hrun, hcheck⟩ := PartialStep.exists_run_of_execute
    (instanceStep twoEntries) (freshInstance twoEntries [])
    [.set (setOneByte true 97), .set (setOneByte true 98), .set (setOneByte false 97), .compact]
    (fun traced =>
      let keyValue := (setOneByte true 99).keyValue
      traced.state.instanceIsAlive &&
      (entryTableGetEntry traced.state.entryTable keyValue.key).isNone &&
      newValueFitsWithReplaced twoEntries traced.state keyValue &&
      !entryTableHasEntries twoEntries traced.state keyValue &&
      decide ((instanceSet twoEntries traced.state keyValue []).replacedKeys = [literal [97]]) &&
      traced.state.entryTable.any (fun entry => decide (entry.key = literal [98]) &&
        entryTableIsEntryAtomic twoEntries entry) &&
      decide (traced.calls.map (fun call => (call.keyValue.key, call.status)) =
        [(literal [97], .ok), (literal [98], .ok), (literal [97], .ok)]))
    (by decide +kernel)
  simp only [Bool.and_eq_true, Option.isNone_iff_eq_none, Bool.not_eq_true', decide_eq_true_eq,
    List.any_eq_true] at hcheck
  obtain ⟨⟨⟨⟨⟨⟨halive, habsent⟩, hfits⟩, hshort⟩, hkeys⟩, ⟨kept, hkept, hname, hatomic⟩⟩, hcalls⟩ :=
    hcheck
  have hmem : (⟨finish.calls, finish.state, (setOneByte true 99).keyValue, []⟩ : SetStart) ∈
      setStarts twoEntries finish (.set (setOneByte true 99)) := by
    simp [setStarts, halive, setOneByte]
  have hchosen := hclaim twoEntries [] _ finish (.set (setOneByte true 99)) rfl hrun _ hmem
    ⟨habsent, hfits, hshort⟩
  simp only [SetStart.call, hkeys] at hchosen
  obtain ⟨earlier, later, hfirst, hsecond, hlt⟩ := hchosen.oldest kept hkept hatomic
    (by rw [hname]; decide) (literal [97]) (List.mem_singleton_self _)
  rw [hname] at hsecond
  -- the last successful SET of the replaced key is the last call
  have hlength : finish.calls.length = 3 := by simpa using congrArg List.length hcalls
  have hlast : LastAt (SetCall.Sets (literal [97])) finish.calls 2 := by
    constructor
    · have hcall : finish.calls[2]?.map (fun call => (call.keyValue.key, call.status)) =
          some (literal [97], .ok) := by
        rw [← List.getElem?_map, hcalls]
        rfl
      obtain ⟨call, hget, hpair⟩ := Option.map_eq_some_iff.mp hcall
      exact ⟨call, hget, (Prod.mk.inj hpair).1, (Prod.mk.inj hpair).2⟩
    · intro place call hplace hget
      have := (List.getElem?_eq_some_iff.mp hget).1
      omega
  have hplace := hfirst.unique hlast
  have := hsecond.lt_length
  omega

end SockMyPort.Instancia
