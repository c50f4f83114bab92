/-
# How many keys a SET evicts

The replacement step of `instance_set` is guarded and triggered by the entries that a value
takes beyond those of its key. The algorithms that it calls count all the entries of the
value. For a key that is not stored the two are the same, and the fewest keys are evicted; for
a stored key too many are, or the algorithm refuses and none is.
-/

import SockMyPort.Instancia.LeastRecentlySet
import SockMyPort.Instancia.Biggest

namespace SockMyPort.Instancia

open SockMyPort.Commons Library

variable {config : Config}

variable (config) in
/-- The replacement step takes out of the table as many atomic keys as entries are missing, and
not the key that is set. -/
def MinimallyEvicts (state : InstanceState) (keyValue : KeyValue) (replacedKeys : List CString) :
    Prop :=
  ∃ evicted,
    (instanceSetReplace config state keyValue replacedKeys).2.1 = replacedKeys ++ evicted ∧
    AtomicKeys config state.entryTable
      (entryTableDiffEntries config state.entryTable keyValue - state.entriesLeft) evicted ∧
    keyValue.key ∉ evicted ∧
    ∀ entry, entry ∈ (instanceSetReplace config state keyValue replacedKeys).1.entryTable ↔
      entry ∈ state.entryTable ∧ entry.key ∉ evicted

/-! ## What an algorithm evicts -/

/-- Every policy evicts as many keys as the whole value misses entries. -/
theorem algorithmsExec_evicts {state : InstanceState} {keyValue : KeyValue} {left : ℤ}
    (inv : TableInvariant config state.entryTable left)
    (hcoherent : CoherentStatus config state.entryTable state.entryTableStatusGlobal)
    (hlength : state.entryTableStatusGlobal.length = config.totalEntries)
    (hshort : entryTableHaveEntries config state keyValue = false)
    (hfits : newValueFits config state keyValue = true) {algorithm : AlgorithmId}
    (hknown : algorithm ≠ .unknown)
    (honce : algorithm = .bsu → subtractsOnce config state keyValue = true)
    (replacedKeys : List CString) :
    let executed := algorithmsExec config algorithm state
      (List.range state.entryTableStatusGlobal.length) keyValue replacedKeys
    executed.result ≠ 0 ∧ ∃ evicted, executed.replacedKeys = replacedKeys ++ evicted ∧
      AtomicKeys config state.entryTable
        (entryTableEntriesNeeded config keyValue - state.entriesLeft) evicted := by
  have hslots := hcoherent.atomicSlots inv hlength
  have hneeded : 0 < (entryTableEntriesNeeded config keyValue : ℤ) - state.entriesLeft := by
    simp only [entryTableHaveEntries, decide_eq_false_iff_not] at hshort
    omega
  cases algorithm with
  | circular =>
      have hcount := hslots.length_clockEvicts inv hshort hfits
      have hkeys := hslots.atomicKeys_clockEvicts inv keyValue
      rw [hcount] at hkeys
      simp only [algorithmsExec]
      rw [algorithmCircular_eq List.nodup_range hshort hfits, ← clockEvicts]
      refine ⟨?_, _, rfl, hkeys⟩
      show ((clockEvicts config state keyValue).length : ℤ) ≠ 0
      omega
  | lru =>
      have hcount := hslots.length_eq inv (nodup_atomicByReference config _)
        fun _ => mem_atomicByReference
      have hfits' := hfits
      simp only [newValueFits, decide_eq_true_eq] at hfits'
      have hkeys := hslots.atomicKeys inv ((nodup_atomicByReference config _).sublist
        (List.take_sublist (entryTableEntriesNeeded config keyValue - state.entriesLeft).toNat _))
        fun _ hslot => mem_atomicByReference.mp (List.mem_of_mem_take hslot)
      rw [List.length_take_of_le (by rw [hcount]; omega), Int.toNat_of_nonneg hneeded.le] at hkeys
      refine ⟨?_, _, algorithmLru_replacedKeys hshort hfits replacedKeys, hkeys⟩
      simp [algorithmsExec, algorithmLru, hshort, hfits]
  | bsu =>
      obtain ⟨victims, hvictims, hbiggest⟩ :=
        hslots.exists_biggest inv hshort hfits (honce rfl) replacedKeys
      have hkeys := hslots.atomicKeys inv hbiggest.nodup hbiggest.atomic
      rw [hvictims] at hkeys
      refine ⟨?_, _, hbiggest.replaced, hkeys⟩
      simp [algorithmsExec, algorithmBsu, hshort, hfits]
  | unknown => exact absurd rfl hknown

/-- An algorithm that finds the value too big for it does nothing, and does not say zero. -/
theorem algorithmsExec_refuses {state : InstanceState} {keyValue : KeyValue}
    (hfits : newValueFits config state keyValue = false) (algorithm : AlgorithmId)
    (slots : List ℕ) (replacedKeys : List CString) :
    (algorithmsExec config algorithm state slots keyValue replacedKeys).result ≠ 0 ∧
      (algorithmsExec config algorithm state slots keyValue replacedKeys).replacedKeys =
        replacedKeys := by
  cases algorithm <;>
    simp [algorithmsExec, algorithmCircular, algorithmLru, algorithmBsu, hfits]

/-! ## The replacement step -/

/-- The keys of the replacement step are those of the algorithm. -/
theorem instanceSetReplace_keys {state : InstanceState} {keyValue : KeyValue}
    (hshort : entryTableHasEntries config state keyValue = false) (replacedKeys : List CString) :
    (instanceSetReplace config state keyValue replacedKeys).2.1 =
      (algorithmsExec config config.replacementAlgorithm state
        (List.range state.entryTableStatusGlobal.length) keyValue replacedKeys).replacedKeys := by
  simp only [instanceSetReplace, hshort, Bool.not_false, if_true]
  split <;> rfl

/-- A stored value owns entries, which the algorithms do not count. -/
theorem TableInvariant.diffEntries_of_some {table : List Entry} {left : ℤ}
    (inv : TableInvariant config table left) {keyValue : KeyValue} {entry : Entry}
    (hget : entryTableGetEntry table keyValue.key = some entry) :
    entryTableDiffEntries config table keyValue < entryTableEntriesNeeded config keyValue := by
  have hpositive := inv.slots_pos entry (mem_of_getEntry hget)
  rw [Entry.slots] at hpositive
  simp only [entryTableDiffEntries, hasKey_eq_isSome, hget, Option.isSome_some, if_true,
    entryTableEntriesNeeded_eq]
  omega

namespace InstanceInvariant

variable {state : InstanceState} {keyValue : KeyValue} {replacedKeys : List CString}

/-- **The fewest keys** are evicted exactly when the key is not stored. -/
theorem minimallyEvicts_iff_absent (inv : InstanceInvariant config state)
    (hcoherent : state.Coherent config) (hknown : config.replacementAlgorithm ≠ .unknown)
    (honce : config.replacementAlgorithm = .bsu → subtractsOnce config state keyValue = true)
    (hlength : ∀ key ∈ replacedKeys, key.length ≤ 40)
    (hgone : ∀ key ∈ replacedKeys, entryTableGetEntry state.entryTable key = none)
    (hfits : newValueFitsWithReplaced config state keyValue = true)
    (hshort : entryTableHasEntries config state keyValue = false) :
    MinimallyEvicts config state keyValue replacedKeys ↔
      entryTableGetEntry state.entryTable keyValue.key = none := by
  have hreplace := inv.instanceSetReplace keyValue _ hlength hgone
  have hkeys := instanceSetReplace_keys hshort replacedKeys
  simp only [entryTableHasEntries, decide_eq_false_iff_not] at hshort
  have hhave : entryTableHaveEntries config state keyValue = false := by
    simp only [entryTableHaveEntries, decide_eq_false_iff_not]
    cases hget : entryTableGetEntry state.entryTable keyValue.key with
    | none =>
        rw [diffEntries_of_none config hget, ← entryTableEntriesNeeded_eq] at hshort
        exact hshort
    | some entry =>
        have hless := inv.table.diffEntries_of_some hget
        omega
  constructor
  · rintro ⟨evicted, hevicted, hatomic, -, -⟩
    cases hget : entryTableGetEntry state.entryTable keyValue.key with
    | none => rfl
    | some entry =>
        have hless := inv.table.diffEntries_of_some hget
        have hcount := hatomic.length
        rw [hkeys] at hevicted
        cases hvalue : newValueFits config state keyValue
        · -- the algorithm refuses, although the growth fits
          rw [(algorithmsExec_refuses hvalue _ _ _).2, List.self_eq_append_right] at hevicted
          rw [hevicted, List.length_nil] at hcount
          omega
        · -- the entries that the key owns are evicted for it as well
          obtain ⟨-, all, hall, hmany⟩ := algorithmsExec_evicts inv.table hcoherent
            inv.statuses.length hhave hvalue hknown honce replacedKeys
          rw [hall, List.append_cancel_left_eq] at hevicted
          have hlength := hmany.length
          rw [hevicted] at hlength
          omega
  · intro habsent
    have hdiff := diffEntries_of_none config habsent
    rw [← entryTableEntriesNeeded_eq] at hdiff
    have hvalue : newValueFits config state keyValue = true := by
      simp only [newValueFitsWithReplaced, hdiff, decide_eq_true_eq] at hfits
      simpa only [newValueFits, decide_eq_true_eq] using hfits
    obtain ⟨-, evicted, hevicted, hatomic⟩ := algorithmsExec_evicts inv.table hcoherent
      inv.statuses.length hhave hvalue hknown honce replacedKeys
    refine ⟨evicted, hkeys.trans hevicted, by rw [hdiff]; exact hatomic, ?_, ?_⟩
    · intro hmem
      obtain ⟨entry, hget, -⟩ := hatomic.atomic _ hmem
      rw [habsent] at hget
      cases hget
    · intro entry
      rw [hreplace.mem_iff inv, hkeys, hevicted, List.mem_append, not_or]
      constructor
      · rintro ⟨hmem, -, hkept⟩
        exact ⟨hmem, hkept⟩
      · rintro ⟨hmem, hkept⟩
        refine ⟨hmem, fun hearlier => ?_, hkept⟩
        have hnone := hgone entry.key hearlier
        rw [entryTableGetEntry_eq_none_iff] at hnone
        exact hnone (List.mem_map_of_mem hmem)

/-- Every call of a request begins with tables that agree and without the keys replaced
before; a second call does so when the request keeps the statuses. -/
theorem coherent_setStarts {traced : TracedInstance} (inv : InstanceInvariant config traced.state)
    (hcoherent : traced.state.Coherent config) {request : Request} {start : SetStart}
    (hmem : start ∈ setStarts config traced request)
    (hkeeps : start.calls = traced.calls ∨
      requestKeepsStatus config traced.state request = true) :
    InstanceInvariant config start.state ∧ start.state.Coherent config ∧
      (∀ key ∈ start.replacedKeys, key.length ≤ 40) ∧
      ∀ key ∈ start.replacedKeys, entryTableGetEntry start.state.entryTable key = none := by
  obtain ⟨hstart, -, hlength, hgone⟩ := inv.setStart hmem
  refine ⟨hstart, ?_, hlength, hgone⟩
  obtain ⟨set, rfl, -, hcase, rfl | ⟨hsend, hstatus, rfl⟩⟩ := setStarts_cases hmem
  · exact hcoherent
  · replace hkeeps := hkeeps.resolve_left (by simp)
    simp only [requestKeepsStatus, hcase, if_true, Bool.and_eq_true, Bool.or_eq_true,
      Bool.not_eq_true', Bool.and_eq_false_iff, decide_eq_false_iff_not] at hkeeps
    obtain ⟨hset, hrest⟩ := hkeeps
    obtain ⟨hcompactKeeps, -⟩ := hrest.resolve_left (by simp [hsend, hstatus])
    obtain ⟨hfirst, -, -⟩ := inv.instanceSet set.keyValue [] set.value_ne (by simp) (by simp)
    have hfirstCoherent := inv.coherent_set set.keyValue [] hcoherent set.value_ne (by simp)
      (by simp) hset
    exact hfirst.coherent_compact hfirstCoherent hcompactKeeps

end InstanceInvariant

/-! ## Runs -/

/-- **The fewest keys** are evicted by every SET of a key that is not stored, and by no other
one, in every run whose requests keep the status table in agreement with the entry table. -/
theorem minimallyEvicts_of_runs (hknown : config.replacementAlgorithm ≠ .unknown)
    {mountPoint : CString} {events : List Request} {finish : TracedInstance}
    (hrun : (instanceStep config).Runs
      (fun traced request => requestKeepsStatus config traced.state request = true)
      (freshInstance config mountPoint) events finish) (request : Request) :
    ∀ start ∈ setStarts config finish request,
      (start.calls = finish.calls ∨ requestKeepsStatus config finish.state request = true) →
      newValueFitsWithReplaced config start.state start.keyValue = true →
      entryTableHasEntries config start.state start.keyValue = false →
      (config.replacementAlgorithm = .bsu →
        subtractsOnce config start.state start.keyValue = true) →
        (MinimallyEvicts config start.state start.keyValue start.replacedKeys ↔
          entryTableGetEntry start.state.entryTable start.keyValue.key = none) := by
  intro start hmem hkeeps hfits hshort honce
  obtain ⟨hinv, hcoherent⟩ := coherentInvariant_of_runs hrun
  obtain ⟨hstart, hagree, hlength, hgone⟩ := hinv.coherent_setStarts hcoherent hmem hkeeps
  exact hstart.minimallyEvicts_iff_absent hagree hknown honce hlength hgone hfits hshort

/-- A SET of a key of one byte to a value of two. -/
def setTwoBytes (key : UInt8) : SetRequest :=
  ⟨true, literal [key], literal [120, 120], by decide, true⟩

/-- Three keys fill the storage: a new value of two entries replaces two of them. -/
theorem minimallyEvicts_of_runs_new : ∃ finish,
    (instanceStep threeEntries).Runs
      (fun traced request => requestKeepsStatus threeEntries traced.state request = true)
      (freshInstance threeEntries []) [setX 97, setX 98, setX 99] finish ∧
    ∃ start ∈ setStarts threeEntries finish (.set (setTwoBytes 100)),
      MinimallyEvicts threeEntries start.state start.keyValue start.replacedKeys := by
  obtain ⟨finish, hrun, hcheck⟩ := PartialStep.exists_run_of_execute
    ((instanceStep threeEntries).guarded fun traced request =>
      requestKeepsStatus threeEntries traced.state request) (freshInstance threeEntries [])
    [setX 97, setX 98, setX 99]
    (fun traced =>
      let keyValue := (setTwoBytes 100).keyValue
      traced.state.instanceIsAlive &&
      (entryTableGetEntry traced.state.entryTable keyValue.key).isNone &&
      newValueFitsWithReplaced threeEntries traced.state keyValue &&
      !entryTableHasEntries threeEntries traced.state keyValue)
    (by decide +kernel)
  simp only [Bool.and_eq_true, Option.isNone_iff_eq_none, Bool.not_eq_true'] at hcheck
  obtain ⟨⟨⟨halive, habsent⟩, hfits⟩, hshort⟩ := hcheck
  have hrun' := PartialStep.runs_of_guarded hrun
  have hmem : (⟨finish.calls, finish.state, (setTwoBytes 100).keyValue, []⟩ : SetStart) ∈
      setStarts threeEntries finish (.set (setTwoBytes 100)) := by
    simp [setStarts, halive, setTwoBytes]
  have hminimal := minimallyEvicts_of_runs (by decide) hrun' (.set (setTwoBytes 100)) _ hmem
    (Or.inl rfl) hfits hshort fun hbsu => by cases hbsu
  exact ⟨finish, hrun', _, hmem, hminimal.mpr habsent⟩

/-- Three keys fill the storage: one of them that grows by an entry replaces the other two. -/
theorem not_minimallyEvicts :
    ¬ ∀ (config : Config) (mountPoint : CString) (events : List Request) (finish : TracedInstance)
      (request : Request), config.replacementAlgorithm ≠ .unknown →
      (instanceStep config).FreeRuns (freshInstance config mountPoint) events finish →
      ∀ start ∈ setStarts config finish request,
        newValueFitsWithReplaced config start.state start.keyValue = true →
        entryTableHasEntries config start.state start.keyValue = false →
          MinimallyEvicts config start.state start.keyValue start.replacedKeys := by
  intro hclaim
  obtain ⟨finish, hrun, hcheck⟩ := PartialStep.exists_run_of_execute
    (instanceStep threeEntries) (freshInstance threeEntries []) [setX 97, setX 98, setX 99]
    (fun traced =>
      let keyValue := (setTwoBytes 99).keyValue
      traced.state.instanceIsAlive &&
      newValueFitsWithReplaced threeEntries traced.state keyValue &&
      !entryTableHasEntries threeEntries traced.state keyValue &&
      decide (entryTableDiffEntries threeEntries traced.state.entryTable keyValue -
        traced.state.entriesLeft = 1) &&
      decide ((instanceSetReplace threeEntries traced.state keyValue []).2.1 =
        [literal [97], literal [98]]))
    (by decide +kernel)
  simp only [Bool.and_eq_true, Bool.not_eq_true', decide_eq_true_eq] at hcheck
  obtain ⟨⟨⟨⟨halive, hfits⟩, hshort⟩, hmissing⟩, hkeys⟩ := hcheck
  have hmem : (⟨finish.calls, finish.state, (setTwoBytes 99).keyValue, []⟩ : SetStart) ∈
      setStarts threeEntries finish (.set (setTwoBytes 99)) := by
    simp [setStarts, halive, setTwoBytes]
  obtain ⟨evicted, hevicted, hatomic, -⟩ := hclaim threeEntries [] _ finish
    (.set (setTwoBytes 99)) (by decide) hrun _ hmem hfits hshort
  simp only [hkeys, List.nil_append] at hevicted
  have hlength := hatomic.length
  rw [← hevicted, hmissing] at hlength
  cases hlength

end SockMyPort.Instancia
