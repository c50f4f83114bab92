/-
# The answer to a SET

The coordinator is told the status of a SET and the number of entries in use.
When the instance asks for a compaction, it answers before it compacts and calls
`instance_set` again, so that the answer is a promise. The promise is kept
exactly when the free entries suffice for the value once the replaced keys and
the key's own old value are gone.
-/

import SockMyPort.Instancia.StoreMap

namespace SockMyPort.Instancia

open SockMyPort.Commons Library

variable {config : Config}

/-! ## The promise and its condition -/

variable (config) in
/-- An answer of success that was sent is true of the state in which the request
ends: the key has the value, and the number of entries is right. -/
def TruthfulAnswer (state : InstanceState) (request : SetRequest) : Prop :=
  let handling := instanceThreadApiSet config state request
  request.sendOk = true → handling.notified = .ok ∨ handling.notified = .compact →
    entryTableHasKey handling.state.entryTable request.keyValue.key false = true ∧
    (instanceStatus config handling.state request.keyValue.key).map KeyValue.value =
      some request.value ∧
    handling.entriesUsed = config.totalEntries - handling.state.entriesLeft ∧
    handling.entriesUsed ≤ config.totalEntries

variable (config) in
/-- The request asks for a compaction although, after the replacement step, the
entries of the table do not suffice for the value. -/
def compactsWithoutRoom (state : InstanceState) (request : SetRequest) : Bool :=
  let keyValue := request.keyValue
  request.sendOk && (request.isNew || entryTableHasKey state.entryTable keyValue.key false) &&
    newValueFitsWithReplaced config state keyValue &&
      match instanceSetReplace config state keyValue [] with
      | (replaced, _, finished) =>
          finished && !entryTableHasContinousEntries config replaced keyValue &&
            !entryTableHasEntries config replaced keyValue

/-! ## The stages of a request -/

theorem instanceThreadApiSet_of_unknown {state : InstanceState} {request : SetRequest}
    (hunknown : (request.isNew ||
      entryTableHasKey state.entryTable request.keyValue.key false) = false) :
    (instanceThreadApiSet config state request).notified = .replaced := by
  obtain ⟨hold, habsent⟩ := Bool.or_eq_false_iff.mp hunknown
  simp [instanceThreadApiSet, hold, habsent]

/-- A request that is handled and answered: the answer is the status of the first
call, and a second call follows a compaction. -/
theorem instanceThreadApiSet_of_handled (config : Config) {state : InstanceState}
    {request : SetRequest}
    (hhandled : (request.isNew ||
      entryTableHasKey state.entryTable request.keyValue.key false) = true)
    (hsend : request.sendOk = true) :
    let first := instanceSet config state request.keyValue []
    let handling := instanceThreadApiSet config state request
    handling.notified = first.status ∧
    handling.entriesUsed = config.totalEntries - first.state.entriesLeft +
      (if first.status = .compact then
        entryTableDiffEntries config first.state.entryTable request.keyValue else 0) ∧
    (first.status = .ok → handling.state = first.state) ∧
    (first.status = .compact → handling.state =
      (instanceSet config (compactationCompact config first.state) request.keyValue
        first.replacedKeys).state) := by
  intro first handling
  have hcase : (request.isNew || entryTableHasKey state.entryTable request.keyValue.key
      request.isNew) = true := by
    cases hisNew : request.isNew
    · simpa [hisNew] using hhandled
    · rfl
  simp only [handling, instanceThreadApiSet, hcase, hsend, Bool.not_true, Bool.false_eq_true,
    if_false]
  cases hstatus : first.status <;> simp [first]

theorem instanceSet_eq_place {state replaced : InstanceState} {keyValue : KeyValue}
    {replacedKeys keys : List CString}
    (hfits : newValueFitsWithReplaced config state keyValue = true)
    (houtcome : instanceSetReplace config state keyValue replacedKeys = (replaced, keys, true)) :
    instanceSet config state keyValue replacedKeys =
      { state := (instanceSetPlace config replaced keyValue).1
        replacedKeys := keys
        status := (instanceSetPlace config replaced keyValue).2 } := by
  simp [instanceSet, hfits, houtcome]

/-! ## Room after the compaction -/

/-- A value has enough entries when the free ones suffice without the key's own
old value. -/
theorem hasEntries_iff (state : InstanceState) (keyValue : KeyValue) :
    entryTableHasEntries config state keyValue = true ↔
      (reqEntries config keyValue.size : ℤ) ≤
        (entryTableDelete config state keyValue).entriesLeft := by
  rw [TableInvariant.entriesLeft_entryTableDelete]
  simp only [entryTableHasEntries, entryTableDiffEntries, hasKey_eq_isSome, decide_eq_true_eq]
  cases entryTableGetEntry state.entryTable keyValue.key with
  | none => simp
  | some entry =>
      simp only [Option.isSome_some, if_true, Option.elim_some, Entry.slots]
      omega

/-- For a key that the table lacks, no entries are saved. -/
theorem diffEntries_of_none (config : Config) {table : List Entry} {keyValue : KeyValue}
    (hget : entryTableGetEntry table keyValue.key = none) :
    entryTableDiffEntries config table keyValue = reqEntries config keyValue.size := by
  simp [entryTableDiffEntries, hasKey_eq_isSome, hget]

/-- What the first call leaves behind when it asks for a compaction: the table
without the key. -/
theorem instanceSetPlace_of_not_continous {state : InstanceState} {keyValue : KeyValue}
    (hcontinous : entryTableHasContinousEntries config state keyValue = false) :
    (instanceSetPlace config state keyValue).2 = .compact ∧
      (instanceSetPlace config state keyValue).1.entriesLeft =
        (entryTableDelete config state keyValue).entriesLeft ∧
      (instanceSetPlace config state keyValue).1.entryTable =
        otherEntries state.entryTable keyValue.key := by
  simp only [instanceSetPlace, hcontinous, Bool.not_false, if_true]
  split
  · exact ⟨rfl, rfl, entryTable_entryTableDelete _ _⟩
  · rename_i hkey
    simp only [hasKey_eq_isSome, Bool.not_eq_true, Option.isSome_eq_false_iff,
      Option.isNone_iff_eq_none] at hkey
    exact ⟨rfl, by rw [entryTableDelete_of_none hkey], (otherEntries_of_none hkey).symm⟩

theorem instanceSetPlace_ne_compact {state : InstanceState} {keyValue : KeyValue}
    (hcontinous : entryTableHasContinousEntries config state keyValue = true) :
    (instanceSetPlace config state keyValue).2 ≠ .compact := by
  simp only [instanceSetPlace, hcontinous, Bool.not_true, Bool.false_eq_true, if_false]
  split
  · simp
  · split <;> simp

namespace InstanceInvariant

variable {state : InstanceState}

/-- A new key for which a free run of the storage is long enough is stored where the
search says. -/
theorem instanceSet_eq_of_room (inv : InstanceInvariant config state) {keyValue : KeyValue}
    (replacedKeys : List CString) (hvalue : keyValue.value ≠ [])
    (hget : entryTableGetEntry state.entryTable keyValue.key = none)
    (hfits : (reqEntries config keyValue.size : ℤ) ≤ state.entriesLeft) {number : ℕ}
    (hfree : FreeRun config state.entryTable number (reqEntries config keyValue.size))
    (hinside : number + reqEntries config keyValue.size ≤ config.totalEntries) :
    ∃ nextEntry,
      searchGap config (reqEntries config keyValue.size) state.entryTable = some nextEntry ∧
      Instancia.instanceSet config state keyValue replacedKeys =
        { state :=
            { entryTableInsert config
                { state with
                  storage := writeCells state.storage (nextEntry * config.entrySize)
                    ((bytesOf keyValue.value).take keyValue.size) } nextEntry keyValue with
              entryTableStatusGlobal :=
                entryTableStatusAddKv config state.entryTableStatusGlobal keyValue nextEntry }
          replacedKeys := replacedKeys
          status := .ok } := by
  have hsize : 0 < keyValue.size := by
    rw [keyValue.size_eq]
    exact List.length_pos_of_ne_nil hvalue
  have hdiff := diffEntries_of_none config hget
  have hwithReplaced : newValueFitsWithReplaced config state keyValue = true := by
    simp only [newValueFitsWithReplaced, hdiff, decide_eq_true_eq]
    omega
  have hhasEntries : entryTableHasEntries config state keyValue = true := by
    simp only [entryTableHasEntries, hdiff, decide_eq_true_eq]
    exact hfits
  have hhaveEntries : entryTableHaveEntries config state keyValue = true :=
    decide_eq_true hfits
  obtain ⟨nextEntry, hsearch⟩ := Option.isSome_iff_exists.mp
    (inv.table.searchGap_complete (reqEntries_pos hsize) hfree hinside)
  have hcontinous : entryTableHasContinousEntries config state keyValue = true := by
    simp only [entryTableHasContinousEntries, hasKey_eq_isSome, hget, Option.isSome_none,
      Bool.false_eq_true, if_false, hsearch, Option.isSome_some]
  have hnext : entryTableNextEntry config state keyValue = some nextEntry := by
    rw [TableInvariant.nextEntry_of_new hget hhaveEntries, hsearch]
  have hroom : nextEntry + reqEntries config keyValue.size ≤ config.totalEntries := by
    by_cases hempty : state.entryTable = []
    · simp only [hempty, searchGap, Option.some.injEq] at hsearch
      omega
    · exact (inv.table.searchGap_sound hsearch).2 hempty
  have hset : storageSet config state nextEntry (bytesOf keyValue.value) keyValue.size =
      some { state with
        storage := writeCells state.storage (nextEntry * config.entrySize)
          ((bytesOf keyValue.value).take keyValue.size) } := by
    have hbytes := le_reqEntries_mul config keyValue.size
    have := Nat.mul_le_mul_right config.entrySize hroom
    rw [Nat.add_mul] at this
    rw [storageSet, if_neg (by omega)]
  refine ⟨nextEntry, hsearch, ?_⟩
  simp only [Instancia.instanceSet, hwithReplaced, Bool.not_true, Bool.false_eq_true, if_false,
    Instancia.instanceSetReplace, hhasEntries, Instancia.instanceSetPlace, hcontinous, hnext, hset,
    entryTableInsert_statuses]

/-- A new key is stored when a free run of the storage is long enough. -/
theorem instanceSet_of_room (inv : InstanceInvariant config state) {keyValue : KeyValue}
    {replacedKeys : List CString} (hvalue : keyValue.value ≠ [])
    (hget : entryTableGetEntry state.entryTable keyValue.key = none)
    (hfits : (reqEntries config keyValue.size : ℤ) ≤ state.entriesLeft) {number : ℕ}
    (hfree : FreeRun config state.entryTable number (reqEntries config keyValue.size))
    (hinside : number + reqEntries config keyValue.size ≤ config.totalEntries) :
    (Instancia.instanceSet config state keyValue replacedKeys).status = .ok ∧
      (Instancia.instanceSet config state keyValue replacedKeys).replacedKeys = replacedKeys ∧
      (Instancia.instanceSet config state keyValue replacedKeys).state.entriesLeft =
        state.entriesLeft - reqEntries config keyValue.size := by
  obtain ⟨nextEntry, -, hset⟩ :=
    inv.instanceSet_eq_of_room replacedKeys hvalue hget hfits hfree hinside
  obtain ⟨table, heq, -, -⟩ := entryTableInsert_eq config
    { state with
      storage := writeCells state.storage (nextEntry * config.entrySize)
        ((bytesOf keyValue.value).take keyValue.size) } nextEntry keyValue
  rw [hset]
  refine ⟨rfl, rfl, ?_⟩
  rw [heq]
  simp only [TableInvariant.entriesLeft_entryTableDelete, hget, Option.elim_none, add_zero]

/-- Behind the packed entries there is one run of all free entries. -/
theorem freeRun_of_packed (inv : InstanceInvariant config state) {count : ℕ}
    (hfits : (count : ℤ) ≤ state.entriesLeft) :
    FreeRun config (Instancia.compactationCompact config state).entryTable
        (occupied (Entry.slots config) state.entryTable) count ∧
      occupied (Entry.slots config) state.entryTable + count ≤ config.totalEntries := by
  rw [inv.compactationCompact_packed]
  refine ⟨fun entry hmem => .inr ?_, ?_⟩
  · have := end_le_of_mem_packFrom hmem
    omega
  · have := inv.table.left_eq
    omega

/-- After a compaction, the second call stores the value of a key that the table
lacks when the free entries suffice. -/
theorem instanceSet_of_compacted (inv : InstanceInvariant config state) {keyValue : KeyValue}
    (replacedKeys : List CString) (hvalue : keyValue.value ≠ [])
    (hget : entryTableGetEntry state.entryTable keyValue.key = none)
    (hfits : (reqEntries config keyValue.size : ℤ) ≤ state.entriesLeft) :
    (Instancia.instanceSet config (Instancia.compactationCompact config state) keyValue
        replacedKeys).status = .ok ∧
      (Instancia.instanceSet config (Instancia.compactationCompact config state) keyValue
        replacedKeys).replacedKeys = replacedKeys ∧
      (Instancia.instanceSet config (Instancia.compactationCompact config state) keyValue
        replacedKeys).state.entriesLeft = state.entriesLeft - reqEntries config keyValue.size := by
  obtain ⟨hcompact, hcontents, hleft⟩ := inv.compactationCompact
  obtain ⟨hfree, hinside⟩ := inv.freeRun_of_packed hfits
  have hget' : entryTableGetEntry (Instancia.compactationCompact config state).entryTable
      keyValue.key = none := by
    have hkey := congrFun hcontents keyValue.key
    simpa only [contents, hget, Option.map_none, Option.map_eq_none_iff] using hkey
  rw [← hleft] at hfits ⊢
  exact hcompact.instanceSet_of_room hvalue hget' hfits hfree hinside

end InstanceInvariant

/-! ## When the promise is kept -/

theorem hasKey_of_contents {state : InstanceState} {key value : CString}
    (hcontents : contents config state key = some (bytesOf value)) :
    entryTableHasKey state.entryTable key false = true ∧
      (instanceStatus config state key).map KeyValue.value = some value := by
  constructor
  · rw [hasKey_eq_isSome]
    cases hget : entryTableGetEntry state.entryTable key with
    | none => simp [contents, hget] at hcontents
    | some entry => rfl
  · rw [instanceStatus_eq_contents, hcontents]
    simp

namespace InstanceInvariant

variable {state : InstanceState}

/-- After a first call that asks for a compaction, the answer is true exactly
when the free entries suffice. -/
theorem truthful_of_compact (inv : InstanceInvariant config state) {keyValue : KeyValue}
    (replacedKeys : List CString) (hvalue : keyValue.value ≠ [])
    (hshort : ∀ key ∈ replacedKeys, key.length ≤ 40)
    (hgone : ∀ key ∈ replacedKeys, contents config state key = none)
    (hget : entryTableGetEntry state.entryTable keyValue.key = none) :
    let final := (Instancia.instanceSet config (Instancia.compactationCompact config state) keyValue
      replacedKeys).state
    let entriesUsed := config.totalEntries - state.entriesLeft +
      entryTableDiffEntries config state.entryTable keyValue
    (entryTableHasKey final.entryTable keyValue.key false = true ∧
      (instanceStatus config final keyValue.key).map KeyValue.value = some keyValue.value ∧
      entriesUsed = config.totalEntries - final.entriesLeft ∧
      entriesUsed ≤ config.totalEntries) ↔
    (reqEntries config keyValue.size : ℤ) ≤ state.entriesLeft := by
  intro final entriesUsed
  simp only [entriesUsed, diffEntries_of_none _ hget]
  constructor
  · rintro ⟨-, -, -, hused⟩
    omega
  · intro hfits
    obtain ⟨hstatus, hkeys, hleft⟩ := inv.instanceSet_of_compacted replacedKeys
      hvalue hget hfits
    obtain ⟨hcompact, hsame, -⟩ := inv.compactationCompact
    obtain ⟨-, hcontents, -⟩ := hcompact.instanceSet _ _ hvalue hshort
      (by rw [hsame]; exact hgone)
    have hstored : contents config final keyValue.key = some (bytesOf keyValue.value) := by
      simp only [final]
      rw [hcontents, hstatus]
      simp [SetCall.effect]
    obtain ⟨hkey, hvalue'⟩ := hasKey_of_contents hstored
    refine ⟨hkey, hvalue', ?_, ?_⟩
    · simp only [final]
      omega
    · omega

/-- A request whose first call succeeds is answered truthfully. -/
theorem truthful_of_ok (inv : InstanceInvariant config state) (keyValue : KeyValue)
    (hvalue : keyValue.value ≠ [])
    (hok : (Instancia.instanceSet config state keyValue []).status = .ok) :
    let final := (Instancia.instanceSet config state keyValue []).state
    entryTableHasKey final.entryTable keyValue.key false = true ∧
      (instanceStatus config final keyValue.key).map KeyValue.value = some keyValue.value ∧
      config.totalEntries - final.entriesLeft ≤ config.totalEntries := by
  intro final
  obtain ⟨hfinal, hcontents, -⟩ := inv.instanceSet _ [] hvalue (by simp) (by simp)
  have hstored : contents config final keyValue.key = some (bytesOf keyValue.value) := by
    simp only [final]
    rw [hcontents, hok]
    simp [SetCall.effect]
  obtain ⟨hkey, hvalue'⟩ := hasKey_of_contents hstored
  have hnonneg : 0 ≤ final.entriesLeft := hfinal.table.left_nonneg
  exact ⟨hkey, hvalue', by omega⟩

/-- The condition, for an instance that satisfies the invariant. -/
theorem truthfulAnswer_iff (inv : InstanceInvariant config state) (request : SetRequest) :
    TruthfulAnswer config state request ↔ compactsWithoutRoom config state request = false := by
  cases hhandled : (request.isNew || entryTableHasKey state.entryTable request.keyValue.key false)
  · simp [TruthfulAnswer, instanceThreadApiSet_of_unknown hhandled, compactsWithoutRoom, hhandled]
  cases hsend : request.sendOk
  · simp [TruthfulAnswer, compactsWithoutRoom, hsend]
  obtain ⟨hnotified, hused, hok, hcompact⟩ := instanceThreadApiSet_of_handled config
    hhandled hsend
  simp only [TruthfulAnswer, hsend, forall_const, hnotified, hused, compactsWithoutRoom, hhandled,
    Bool.true_and]
  cases hfits : newValueFitsWithReplaced config state request.keyValue
  · simp [Instancia.instanceSet, hfits]
  rcases houtcome : Instancia.instanceSetReplace config state request.keyValue [] with
    ⟨replaced, keys, _ | _⟩
  · simp [Instancia.instanceSet, hfits, houtcome]
  have hfirst := instanceSet_eq_place hfits houtcome
  have hreplace := inv.instanceSetReplace request.keyValue [] (by simp) (by simp)
  rw [houtcome] at hreplace
  cases hcontinous : entryTableHasContinousEntries config replaced request.keyValue
  · -- the instance asks for a compaction
    obtain ⟨hstatus, hleft, htable⟩ := instanceSetPlace_of_not_continous hcontinous
    obtain ⟨hplaced, hcontents⟩ := hreplace.inv.instanceSetPlace request.keyValue
      request.value_ne
    have hstate := hcompact (by rw [hfirst]; exact hstatus)
    rw [hstate, hfirst]
    simp only [hstatus, if_true, or_true, true_implies, Bool.not_false, Bool.true_and,
      Bool.not_eq_false', hasEntries_iff, ← hleft]
    have hget : entryTableGetEntry
        (Instancia.instanceSetPlace config replaced request.keyValue).1.entryTable
        request.keyValue.key = none := by
      rw [htable, hreplace.inv.table.getEntry_otherEntries, if_pos rfl]
    refine hplaced.truthful_of_compact keys request.value_ne hreplace.keyShort
      (fun key hmem => ?_) hget
    rw [hcontents, hstatus]
    simp only [SetCall.effect, Contents.forget_nil, Function.update_apply, hreplace.contents,
      Contents.forget, hmem, if_true, ite_self]
  · -- the value is stored, or the request fails
    simp only [Bool.not_true, Bool.false_and, Bool.true_and, iff_true]
    intro hsuccess
    have hstatus : (Instancia.instanceSet config state request.keyValue []).status = .ok := by
      refine hsuccess.resolve_right fun h => ?_
      rw [hfirst] at h
      exact instanceSetPlace_ne_compact hcontinous h
    obtain ⟨hkey, hvalue, hle⟩ := inv.truthful_of_ok request.keyValue
      request.value_ne hstatus
    rw [hok hstatus, hstatus]
    exact ⟨hkey, hvalue, by simp, by simpa using hle⟩

end InstanceInvariant

/-- In every reachable state, a successful answer to a SET is true exactly when
the request does not ask for a compaction that cannot make enough room. -/
theorem truthfulAnswer_iff_of_reachable {mountPoint : CString} {state : InstanceState}
    (hreach : InstanceReachable config mountPoint state) (request : SetRequest) :
    TruthfulAnswer config state request ↔ compactsWithoutRoom config state request = false :=
  hreach.invariant.truthfulAnswer_iff request

/-- With three keys of one entry each, a value of four entries for the first one
is answered with a compaction and then lost. -/
theorem not_truthfulAnswer :
    ¬ ∀ (config : Config) (mountPoint : CString) (state : InstanceState) (request : SetRequest),
      InstanceReachable config mountPoint state → TruthfulAnswer config state request := by
  intro hclaim
  obtain ⟨finish, hrun, hcheck⟩ := PartialStep.exists_run_of_execute
    (instanceStep threeEntries) (freshInstance threeEntries [])
    ([.set ⟨true, literal [107], literal [120], by decide, true⟩,
      .set ⟨true, literal [97], literal [120], by decide, true⟩,
      .set ⟨true, literal [98], literal [120], by decide, true⟩])
    (fun traced => decide
      ((instanceThreadApiSet threeEntries traced.state
        ⟨false, literal [107], literal [120, 120, 120, 120], by decide, true⟩).notified = .compact ∧
      entryTableHasKey (instanceThreadApiSet threeEntries traced.state
        ⟨false, literal [107], literal [120, 120, 120, 120], by decide, true⟩).state.entryTable
          (literal [107]) false = false))
    (by decide)
  obtain ⟨hnotified, hlost⟩ := of_decide_eq_true hcheck
  have htruthful := hclaim threeEntries [] finish.state
    ⟨false, literal [107], literal [120, 120, 120, 120], by decide, true⟩
    (InstanceReachable.of_run hrun) rfl (.inr hnotified)
  exact Bool.false_ne_true (hlost.symm.trans htruthful.1)

/-- In an empty instance no answer is a promise that cannot be kept. -/
theorem truthfulAnswer_iff_of_reachable_init :
    TruthfulAnswer threeEntries (instanceInit threeEntries [])
        ⟨true, literal [107], literal [120], by decide, true⟩ ↔
      compactsWithoutRoom threeEntries (instanceInit threeEntries [])
        ⟨true, literal [107], literal [120], by decide, true⟩ = false :=
  truthfulAnswer_iff_of_reachable ⟨[], .refl (freshInstance threeEntries [])⟩ _

end SockMyPort.Instancia
