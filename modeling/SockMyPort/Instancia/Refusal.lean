/-
# A SET that is refused

The coordinator keeps the connection of an instance that refuses a SET and looks for another
instance. It supposes that the first one is as it was and goes on serving. Neither holds: a
refusal by the first call of `instance_set` ends the instance, and one by the second call
comes after the key itself, or a key that was to make room, has been given up.
-/

import SockMyPort.Instancia.PlacementAgreement
import SockMyPort.Instancia.CompactRecency
import SockMyPort.Instancia.MinimalEviction

namespace SockMyPort.Instancia

open SockMyPort.Commons Library

variable {config : Config}

/-! ## What is supposed -/

/-- The call ended in `STATUS_NO_SPACE` or `STATUS_ERROR`. -/
def SetCall.Refused (call : SetCall) : Prop := call.status = .noSpace ∨ call.status = .error

variable (config) in
/-- The instance is as it was before the request, and handles the next one. -/
structure HarmlessRefusal (before after : InstanceState) : Prop where
  entryTable : after.entryTable = before.entryTable
  entriesLeft : after.entriesLeft = before.entriesLeft
  statuses : after.entryTableStatusGlobal = before.entryTableStatusGlobal
  contents : contents config after = contents config before
  files : after.dumper.directory = before.dumper.directory
  serving : after.instanceIsAlive = true

/-! ## Slots of keys that were given up -/

/-- An atomic value of the key is said to be in the slot. -/
def HoldsAtomic (table : List Status) (slot : ℕ) (key : CString) : Prop :=
  (statusAt table slot).status = .atomic ∧ (statusAt table slot).key = key

/-- A key that is given up had a slot, which it has lost. -/
theorem Evicts.exists_slot {before after : List Status} {keys : List CString}
    (hevicts : Evicts before after keys) {key : CString} (hmem : key ∈ keys) :
    ∃ slot, HoldsAtomic before slot key ∧ ¬ HoldsAtomic after slot key := by
  obtain ⟨slot, status, hbefore, hatomic, hkey, hafter⟩ := hevicts.keys key hmem
  refine ⟨slot, ?_, fun hholds => ?_⟩
  · rw [HoldsAtomic, statusAt_of_getElem? hbefore]
    exact ⟨hatomic, hkey⟩
  · rw [HoldsAtomic, statusAt_of_getElem? hafter] at hholds
    cases hholds.1

/-- Giving keys up fills no slot. -/
theorem Evicts.not_holdsAtomic {before after : List Status} {keys : List CString}
    (hevicts : Evicts before after keys) {slot : ℕ} {key : CString}
    (hfree : ¬ HoldsAtomic before slot key) : ¬ HoldsAtomic after slot key := by
  intro hholds
  rcases statusAt_of_evicts hevicts slot with hsame | ⟨-, hgiven⟩
  · rw [HoldsAtomic, hsame] at hholds
    exact hfree hholds
  · rw [HoldsAtomic, hgiven] at hholds
    cases hholds.1

/-- Nor does deleting a key. -/
theorem not_holdsAtomic_delete {table : List Status} (keyValue : KeyValue) {slot : ℕ}
    {key : CString} (hfree : ¬ HoldsAtomic table slot key) :
    ¬ HoldsAtomic (entryTableStatusDeleteKv config table keyValue) slot key := by
  intro hholds
  rw [HoldsAtomic, statusAt_delete] at hholds
  split at hholds
  · cases hholds.1
  · exact hfree hholds

/-- A placement that does not succeed fills no slot. -/
theorem not_holdsAtomic_place {state : InstanceState} {keyValue : KeyValue}
    (hfailed : (instanceSetPlace config state keyValue).2 ≠ .ok) {slot : ℕ} {key : CString}
    (hfree : ¬ HoldsAtomic state.entryTableStatusGlobal slot key) :
    ¬ HoldsAtomic (instanceSetPlace config state keyValue).1.entryTableStatusGlobal slot key := by
  simp only [instanceSetPlace] at hfailed ⊢
  split
  · split
    · obtain ⟨left, hdelete⟩ := entryTableDelete_frame config state keyValue
      rw [hdelete]
      exact not_holdsAtomic_delete keyValue hfree
    · exact hfree
  · rename_i hcontinous
    rw [if_neg hcontinous] at hfailed
    split
    · exact hfree
    · rename_i nextEntry hnext
      simp only [hnext] at hfailed
      split
      · exact hfree
      · rename_i stored hset
        simp only [hset] at hfailed
        exact absurd rfl hfailed

namespace InstanceInvariant

variable {state : InstanceState}

/-- A call that does not succeed fills no slot. -/
theorem not_holdsAtomic_set (inv : InstanceInvariant config state) (keyValue : KeyValue)
    {replacedKeys : List CString} (hshort : ∀ key ∈ replacedKeys, key.length ≤ 40)
    (hgone : ∀ key ∈ replacedKeys, entryTableGetEntry state.entryTable key = none)
    (hfailed : (Instancia.instanceSet config state keyValue replacedKeys).status ≠ .ok)
    {slot : ℕ} {key : CString} (hfree : ¬ HoldsAtomic state.entryTableStatusGlobal slot key) :
    ¬ HoldsAtomic (Instancia.instanceSet config state keyValue
      replacedKeys).state.entryTableStatusGlobal slot key := by
  obtain ⟨evicted, -, hevicts⟩ := (inv.instanceSetReplace keyValue _ hshort hgone).evicts
  have hreplaced := hevicts.not_holdsAtomic hfree
  simp only [Instancia.instanceSet] at hfailed ⊢
  cases hfits : newValueFitsWithReplaced config state keyValue
  · exact hfree
  rcases houtcome : Instancia.instanceSetReplace config state keyValue replacedKeys with
    ⟨replaced, keys, _ | _⟩
  · rw [houtcome] at hreplaced
    exact hreplaced
  · rw [houtcome] at hreplaced
    simp only [hfits, houtcome, Bool.not_true, Bool.false_eq_true, if_false] at hfailed ⊢
    exact not_holdsAtomic_place hfailed hreplaced

/-- A first call that does not succeed empties a slot of every key that it gives up. -/
theorem exists_slot_of_set (inv : InstanceInvariant config state) {keyValue : KeyValue}
    (hfailed : (Instancia.instanceSet config state keyValue []).status ≠ .ok) {key : CString}
    (hmem : key ∈ (Instancia.instanceSet config state keyValue []).replacedKeys) :
    ∃ slot, HoldsAtomic state.entryTableStatusGlobal slot key ∧
      ¬ HoldsAtomic (Instancia.instanceSet config state keyValue
        []).state.entryTableStatusGlobal slot key := by
  obtain ⟨evicted, hkeys, hevicts⟩ :=
    (inv.instanceSetReplace keyValue [] (by simp) (by simp)).evicts
  rw [List.nil_append] at hkeys
  cases hfits : newValueFitsWithReplaced config state keyValue
  · simp [Instancia.instanceSet, hfits] at hmem
  rw [instanceSet_replacedKeys hfits, hkeys] at hmem
  obtain ⟨slot, hholds, hfree⟩ := hevicts.exists_slot hmem
  refine ⟨slot, hholds, ?_⟩
  simp only [Instancia.instanceSet] at hfailed ⊢
  rcases houtcome : Instancia.instanceSetReplace config state keyValue [] with
    ⟨replaced, keys, _ | _⟩
  · rw [houtcome] at hfree
    simpa [hfits] using hfree
  · rw [houtcome] at hfree
    simp only [hfits, houtcome, Bool.not_true, Bool.false_eq_true, if_false] at hfailed ⊢
    exact not_holdsAtomic_place hfailed hfree

/-- A compaction fills no slot with a key that the table lacks. -/
theorem not_holdsAtomic_compact (inv : InstanceInvariant config state) {slot : ℕ} {key : CString}
    (habsent : entryTableGetEntry state.entryTable key = none)
    (hfree : ¬ HoldsAtomic state.entryTableStatusGlobal slot key) :
    ¬ HoldsAtomic (Instancia.compactationCompact config state).entryTableStatusGlobal slot key := by
  have hturns : ∀ turns ≤ state.entryTable.length,
      ¬ HoldsAtomic (Instancia.compactTurns config state turns).entryTableStatusGlobal slot
        key := by
    intro turns hle
    induction turns with
    | zero => exact hfree
    | succ turn ih =>
        have hlt : turn < state.entryTable.length := hle
        have hbefore := ih hlt.le
        intro hholds
        rw [HoldsAtomic, inv.statusAt_compactTurns_succ hlt] at hholds
        split at hholds
        · -- the slot is now of an entry of the table
          rw [StatusTableWellFormed.convertEntryToStatus_key] at hholds
          rw [entryTableGetEntry_eq_none_iff, ← hholds.2] at habsent
          exact habsent (List.mem_map.mpr ⟨_, List.getElem_mem hlt, rfl⟩)
        · split at hholds
          · cases hholds.1
          · rw [Status.age_status, Status.age_key] at hholds
            exact hbefore hholds
  exact hturns _ (Nat.le_refl _)

end InstanceInvariant

/-! ## Calls for a key that is not stored -/

/-- The replacement step finishes unless the clock finds nothing to give up. -/
theorem instanceSetReplace_finishes {state : InstanceState} {keyValue : KeyValue}
    (hdone : entryTableHasEntries config state keyValue = true ∨
      config.replacementAlgorithm ≠ .circular) (replacedKeys : List CString) :
    (instanceSetReplace config state keyValue replacedKeys).2.2 = true := by
  simp only [instanceSetReplace]
  cases hentries : entryTableHasEntries config state keyValue
  · have hresult : (algorithmsExec config config.replacementAlgorithm state
        (List.range state.entryTableStatusGlobal.length) keyValue replacedKeys).result ≠ 0 := by
      replace hdone := hdone.resolve_left (by simp [hentries])
      cases halgorithm : config.replacementAlgorithm with
      | circular => exact absurd halgorithm hdone
      | lru =>
          simp only [algorithmsExec, algorithmLru]
          split <;> simp
      | bsu =>
          simp only [algorithmsExec, algorithmBsu]
          split <;> simp
      | unknown => simp [algorithmsExec]
    simp only [Bool.not_false, if_true, if_neg hresult]
  · rfl

/-- The clock finds nothing only when it gives nothing up. -/
theorem instanceSetReplace_of_nothing {state : InstanceState} {keyValue : KeyValue}
    (hcircular : config.replacementAlgorithm = .circular)
    (hget : entryTableGetEntry state.entryTable keyValue.key = none)
    (hfits : newValueFitsWithReplaced config state keyValue = true)
    (hentries : entryTableHasEntries config state keyValue = false)
    (hnothing : (instanceSetReplace config state keyValue []).2.1 = []) :
    (instanceSetReplace config state keyValue []).2.2 = false := by
  have hshort : entryTableHaveEntries config state keyValue = false := by
    rw [entryTableHasEntries, diffEntries_of_none config hget] at hentries
    exact hentries
  have hroom : newValueFits config state keyValue = true := by
    simpa [newValueFitsWithReplaced, newValueFits, diffEntries_of_none config hget] using hfits
  have hclock := algorithmCircular_eq
    (List.nodup_range : (List.range state.entryTableStatusGlobal.length).Nodup) hshort hroom []
  rw [instanceSetReplace_keys hentries, hcircular, algorithmsExec, hclock, List.nil_append,
    List.map_eq_nil_iff] at hnothing
  simp only [instanceSetReplace, hentries, Bool.not_false, if_true, hcircular, algorithmsExec,
    hclock, hnothing]
  rfl

/-- What is found for a key that is not stored has room. -/
theorem TableInvariant.instanceSetPlace_new_ne_error {state : InstanceState}
    (inv : TableInvariant config state.entryTable state.entriesLeft) {keyValue : KeyValue}
    (hget : entryTableGetEntry state.entryTable keyValue.key = none) (hsize : 0 < keyValue.size)
    (hneeded : reqEntries config keyValue.size ≤ config.totalEntries) :
    (instanceSetPlace config state keyValue).2 ≠ .error := by
  cases hcontinous : entryTableHasContinousEntries config state keyValue
  · rw [(instanceSetPlace_of_not_continous hcontinous).1]
    nofun
  · have hsearch : (searchGap config (reqEntries config keyValue.size)
        state.entryTable).isSome = true := by
      simpa [entryTableHasContinousEntries, hasKey_eq_isSome, hget] using hcontinous
    have hfits : (reqEntries config keyValue.size : ℤ) ≤ state.entriesLeft := by
      by_cases hempty : state.entryTable = []
      · have hleft := inv.left_eq
        rw [hempty] at hleft
        simp only [occupied_nil] at hleft
        omega
      · obtain ⟨number, hplace⟩ :=
          (inv.searchGap_isSome_iff hempty (reqEntries_pos hsize)).mp hsearch
        obtain ⟨hinside, hfree⟩ := (mem_places_iff inv.slots_pos (reqEntries_pos hsize)).mp hplace
        exact inv.needed_le_left hget hsize hfree hinside
    apply instanceSetPlace_ne_error
    apply inv.placementsAgree_of_new hget _ hsize
    rw [entryTableHasEntries, diffEntries_of_none config hget]
    exact decide_eq_true hfits

/-- A placement is not short of space. -/
theorem instanceSetPlace_ne_noSpace (state : InstanceState) (keyValue : KeyValue) :
    (instanceSetPlace config state keyValue).2 ≠ .noSpace := by
  simp only [instanceSetPlace]
  split
  · split <;> simp
  · split
    · simp
    · split <;> simp

namespace InstanceInvariant

variable {state : InstanceState}

/-- No more entries can be made free than the storage has. -/
theorem needed_le_total (inv : InstanceInvariant config state) {keyValue : KeyValue}
    (hget : entryTableGetEntry state.entryTable keyValue.key = none)
    (hfits : newValueFitsWithReplaced config state keyValue = true) :
    reqEntries config keyValue.size ≤ config.totalEntries := by
  have hcount : entryTableAtomicEntriesCount config state.entryTable ≤
      occupied (Entry.slots config) state.entryTable := by
    have hslots := List.length_le_sum_of_one_le (state.entryTable.map (Entry.slots config))
      fun slots hmem => by
        obtain ⟨entry, hentry, rfl⟩ := List.mem_map.mp hmem
        exact inv.table.slots_pos entry hentry
    rw [List.length_map] at hslots
    exact List.countP_le_length.trans hslots
  have hleft := inv.table.left_eq
  have hroom := of_decide_eq_true hfits
  rw [diffEntries_of_none config hget] at hroom
  omega

/-- A value that fits is not refused when the key is not stored and the replacement step
finishes. -/
theorem not_refused_of_new (inv : InstanceInvariant config state) {keyValue : KeyValue}
    {replacedKeys : List CString} (hvalue : keyValue.value ≠ [])
    (hshort : ∀ key ∈ replacedKeys, key.length ≤ 40)
    (hgone : ∀ key ∈ replacedKeys, entryTableGetEntry state.entryTable key = none)
    (hget : entryTableGetEntry state.entryTable keyValue.key = none)
    (hfits : newValueFitsWithReplaced config state keyValue = true)
    (hdone : entryTableHasEntries config state keyValue = true ∨
      config.replacementAlgorithm ≠ .circular) :
    ¬ ((Instancia.instanceSet config state keyValue replacedKeys).status = .noSpace ∨
      (Instancia.instanceSet config state keyValue replacedKeys).status = .error) := by
  have hsize : 0 < keyValue.size := by
    rw [keyValue.size_eq]
    exact List.length_pos_of_ne_nil hvalue
  have hfinishes := instanceSetReplace_finishes hdone replacedKeys
  have hreplace := inv.instanceSetReplace keyValue _ hshort hgone
  rcases houtcome : Instancia.instanceSetReplace config state keyValue replacedKeys with
    ⟨replaced, keys, finished⟩
  rw [houtcome] at hfinishes hreplace
  obtain rfl : finished = true := hfinishes
  have habsent : entryTableGetEntry replaced.entryTable keyValue.key = none := by
    rw [hreplace.lookup, hget, ite_self]
  rw [instanceSet_eq_place hfits houtcome, not_or]
  exact ⟨instanceSetPlace_ne_noSpace replaced keyValue,
    hreplace.inv.table.instanceSetPlace_new_ne_error habsent hsize
      (inv.needed_le_total hget hfits)⟩

/-! ## The second call -/

/-- A first call that asks for a compaction without giving a key up, for a key that is not
stored, leaves the table as it is. -/
theorem frame_of_compact {keyValue : KeyValue}
    (hget : entryTableGetEntry state.entryTable keyValue.key = none)
    (hstatus : (Instancia.instanceSet config state keyValue []).status = .compact)
    (hnothing : (Instancia.instanceSet config state keyValue []).replacedKeys = []) :
    (Instancia.instanceSet config state keyValue []).state.entryTable = state.entryTable ∧
      (Instancia.instanceSet config state keyValue []).state.entriesLeft = state.entriesLeft ∧
      newValueFitsWithReplaced config state keyValue = true ∧
      (entryTableHasEntries config state keyValue = true ∨
        config.replacementAlgorithm ≠ .circular) := by
  cases hfits : newValueFitsWithReplaced config state keyValue
  · simp [Instancia.instanceSet, hfits] at hstatus
  rw [instanceSet_replacedKeys hfits] at hnothing
  have hdone : entryTableHasEntries config state keyValue = true ∨
      config.replacementAlgorithm ≠ .circular := by
    by_contra hclock
    rw [not_or, Bool.not_eq_true, not_not] at hclock
    have hrefused := instanceSetReplace_of_nothing hclock.2 hget hfits hclock.1 hnothing
    rcases houtcome : Instancia.instanceSetReplace config state keyValue [] with
      ⟨replaced, keys, finished⟩
    rw [houtcome] at hrefused
    obtain rfl : finished = false := hrefused
    simp [Instancia.instanceSet, hfits, houtcome] at hstatus
  have hfinishes := instanceSetReplace_finishes hdone []
  have hsame : (Instancia.instanceSetReplace config state keyValue []).1.entryTable =
      state.entryTable ∧
      (Instancia.instanceSetReplace config state keyValue []).1.entriesLeft =
        state.entriesLeft := by
    cases hentries : entryTableHasEntries config state keyValue
    · rw [instanceSetReplace_keys hentries] at hnothing
      obtain ⟨evicted, hreplaces, -⟩ := algorithmsExec_replaces config
        config.replacementAlgorithm state (List.range state.entryTableStatusGlobal.length)
        keyValue []
      obtain ⟨statuses, pointer, hframe⟩ := hreplaces.frame
      simp only [Instancia.instanceSetReplace, hentries, Bool.not_false, if_true, hnothing,
        Instancia.entryTableDeleteFew, List.foldl_nil, hframe]
      split <;> exact ⟨rfl, rfl⟩
    · simp [Instancia.instanceSetReplace, hentries]
  rcases houtcome : Instancia.instanceSetReplace config state keyValue [] with
    ⟨replaced, keys, finished⟩
  rw [houtcome] at hfinishes hsame
  obtain rfl : finished = true := hfinishes
  rw [instanceSet_eq_place hfits houtcome] at hstatus ⊢
  have habsent : entryTableGetEntry replaced.entryTable keyValue.key = none := by
    rw [hsame.1]
    exact hget
  have hcontinous : entryTableHasContinousEntries config replaced keyValue = false := by
    by_contra hpromised
    exact instanceSetPlace_ne_compact (by simpa using hpromised) hstatus
  obtain ⟨-, hleft, htable⟩ := instanceSetPlace_of_not_continous hcontinous
  refine ⟨?_, ?_, rfl, hdone⟩
  · rw [htable, otherEntries_of_none habsent, hsame.1]
  · rw [hleft, entryTableDelete_of_none habsent, hsame.2]

/-- A compaction keeps the entries that a value finds. -/
theorem fits_compact {first : InstanceState}
    (hfirst : InstanceInvariant config first) (htable : first.entryTable = state.entryTable)
    (hleft : first.entriesLeft = state.entriesLeft) {keyValue : KeyValue}
    (hget : entryTableGetEntry state.entryTable keyValue.key = none) :
    entryTableGetEntry (Instancia.compactationCompact config first).entryTable keyValue.key =
        none ∧
      newValueFitsWithReplaced config (Instancia.compactationCompact config first) keyValue =
        newValueFitsWithReplaced config state keyValue ∧
      entryTableHasEntries config (Instancia.compactationCompact config first) keyValue =
        entryTableHasEntries config state keyValue := by
  obtain ⟨-, hcontents, hsameLeft⟩ := hfirst.compactationCompact
  have habsent : entryTableGetEntry (Instancia.compactationCompact config first).entryTable
      keyValue.key = none := by
    have hkey := congrFun hcontents keyValue.key
    simpa only [contents, htable, hget, Option.map_none, Option.map_eq_none_iff] using hkey
  refine ⟨habsent, ?_, ?_⟩
  · rw [newValueFitsWithReplaced, diffEntries_of_none config habsent, hsameLeft, hleft,
      hfirst.compactationCompact_packed, atomicEntriesCount_packFrom, htable,
      newValueFitsWithReplaced, diffEntries_of_none config hget]
  · simp only [entryTableHasEntries, diffEntries_of_none config habsent,
      diffEntries_of_none config hget, hsameLeft, hleft]

/-- **A second call that is refused** has lost the key itself, or a key that was to make
room. -/
theorem changed_of_second_refused (inv : InstanceInvariant config state) {keyValue : KeyValue}
    (hvalue : keyValue.value ≠ [])
    (hstatus : (Instancia.instanceSet config state keyValue []).status = .compact) :
    let first := Instancia.instanceSet config state keyValue []
    let second := Instancia.instanceSet config (Instancia.compactationCompact config first.state)
      keyValue first.replacedKeys
    second.status = .noSpace ∨ second.status = .error →
      second.state.entryTable ≠ state.entryTable ∨
        second.state.entryTableStatusGlobal ≠ state.entryTableStatusGlobal := by
  intro first second hrefused
  obtain ⟨hfirst, hfirstContents, -⟩ := inv.instanceSet keyValue [] hvalue (by simp) (by simp)
  obtain ⟨-, hsame, -⟩ := hfirst.compactationCompact
  obtain ⟨hcompacted, hshort, hgone⟩ := inv.second_call hvalue hstatus
  have hgone' := fun key hmem => Option.map_eq_none_iff.mp (hgone key hmem)
  have hfailed : second.status ≠ .ok := by
    rcases hrefused with h | h <;> rw [h] <;> nofun
  by_cases hget : entryTableGetEntry state.entryTable keyValue.key = none
  · by_cases hnothing : first.replacedKeys = []
    · -- nothing was lost, and then the value is not refused
      obtain ⟨htable, hleft, hfits, hdone⟩ := frame_of_compact hget hstatus hnothing
      obtain ⟨habsent, hfits', hentries'⟩ := fits_compact hfirst htable hleft hget
      rw [← hfits'] at hfits
      rw [← hentries'] at hdone
      exact absurd hrefused
        (hcompacted.not_refused_of_new hvalue hshort hgone' habsent hfits hdone)
    · -- the slot of a key that was given up has not come back
      right
      intro hstatuses
      obtain ⟨key, hmem⟩ := List.exists_mem_of_ne_nil _ hnothing
      obtain ⟨slot, hholds, hfree⟩ := inv.exists_slot_of_set (by rw [hstatus]; nofun) hmem
      have hlost : entryTableGetEntry first.state.entryTable key = none := by
        have hnone := hgone key hmem
        rw [hsame] at hnone
        exact Option.map_eq_none_iff.mp hnone
      have hcompact := hfirst.not_holdsAtomic_compact hlost hfree
      have hsecond := hcompacted.not_holdsAtomic_set keyValue hshort hgone' hfailed hcompact
      rw [← hstatuses] at hholds
      exact hsecond hholds
  · -- the key has been deleted for the compaction
    left
    intro htable
    apply hget
    obtain ⟨-, hsecondContents, -⟩ := hcompacted.instanceSet keyValue _ hvalue hshort hgone
    rw [← htable]
    apply Option.map_eq_none_iff.mp
    have hlost := congrFun hsecondContents keyValue.key
    rw [hsame, hfirstContents, hstatus] at hlost
    rw [show Option.map _ _ = contents config second.state keyValue.key from rfl, hlost]
    rcases hrefused with h | h
    · simp [SetCall.effect, h, second, first, Contents.forget]
    · simp [SetCall.effect, h, second, first, Contents.forget]

end InstanceInvariant

/-! ## Requests -/

/-- A request whose last call is refused ends the instance, or has changed a table. -/
theorem InstanceInvariant.dead_or_changed {state : InstanceState}
    (inv : InstanceInvariant config state) (request : SetRequest) {call : SetCall}
    (hlast : (Instancia.instanceThreadApiSet config state request).calls.getLast? = some call)
    (hrefused : call.Refused) :
    let after := (Instancia.instanceThreadApiSet config state request).state
    after.instanceIsAlive = false ∨ after.entryTable ≠ state.entryTable ∨
      after.entryTableStatusGlobal ≠ state.entryTableStatusGlobal := by
  intro after
  simp only [after, Instancia.instanceThreadApiSet] at hlast ⊢
  split
  · -- a key that is not known is not set
    rename_i hunknown
    rw [if_pos hunknown] at hlast
    cases hlast
  · rename_i hhandled
    simp only [if_neg hhandled] at hlast
    split
    · exact .inl rfl
    · rename_i hsend
      simp only [if_neg hsend] at hlast
      split
      · rename_i hstatus
        obtain rfl := Option.some.inj (by simpa [hstatus] using hlast)
        rcases hrefused with h | h <;> cases h
      · rename_i hstatus
        right
        apply inv.changed_of_second_refused request.value_ne hstatus
        simp only [hstatus, List.getLast?_cons_cons, List.getLast?_singleton,
          Option.some.injEq] at hlast
        rw [← hlast] at hrefused
        exact hrefused
      · exact .inl rfl

/-- **No refusal is harmless**: an instance whose last call for a SET is refused has changed,
or does not go on serving. -/
theorem not_harmlessRefusal_of_reachable {mountPoint : CString} {state next : InstanceState}
    (hreach : InstanceReachable config mountPoint state) {request : SetRequest}
    {calls : List SetCall} {call : SetCall}
    (hhandle : handleRequest config state (.set request) = some (next, calls))
    (hlast : calls.getLast? = some call) (hrefused : call.Refused) :
    ¬ HarmlessRefusal config state next := by
  intro hharmless
  obtain ⟨-, ⟨set, hset, rfl, rfl⟩ | ⟨hcompact, -⟩ | ⟨hnot, -⟩⟩ := handleRequest_cases hhandle
  · obtain rfl := Request.set.inj hset
    rcases hreach.invariant.dead_or_changed request hlast hrefused with hdead | htable | hstatuses
    · rw [hharmless.serving] at hdead
      cases hdead
    · exact htable hharmless.entryTable
    · exact hstatuses hharmless.statuses
  · cases hcompact
  · exact absurd rfl (hnot request)

/-- With three keys of one entry each, a value of four entries for the first one is refused
after the key has been deleted, and the instance goes on. -/
theorem not_harmlessRefusal_of_reachable_second :
    ∃ state next calls,
      handleRequest threeEntries state
        (.set ⟨false, literal [97], literal [120, 120, 120, 120], by decide, true⟩) =
          some (next, calls) ∧
      calls.map SetCall.status = [.compact, .noSpace] ∧ next.instanceIsAlive = true ∧
      ¬ HarmlessRefusal threeEntries state next := by
  obtain ⟨finish, hrun, hcheck⟩ := PartialStep.exists_run_of_execute
    (instanceStep threeEntries) (freshInstance threeEntries [])
    ([.set ⟨true, literal [97], literal [120], by decide, true⟩,
      .set ⟨true, literal [98], literal [120], by decide, true⟩,
      .set ⟨true, literal [99], literal [120], by decide, true⟩])
    (fun traced =>
      (handleRequest threeEntries traced.state
        (.set ⟨false, literal [97], literal [120, 120, 120, 120], by decide, true⟩)).any
          fun handled : InstanceState × List SetCall => decide (handled.2.map SetCall.status =
              [StatusCi.compact, .noSpace]) && handled.1.instanceIsAlive) (by decide +kernel)
  obtain ⟨⟨next, calls⟩, hhandle, hcheck⟩ := (Option.any_eq_true _ _).mp hcheck
  rw [Bool.and_eq_true, decide_eq_true_eq] at hcheck
  obtain ⟨hstatuses, halive⟩ := hcheck
  refine ⟨finish.state, next, calls, hhandle, hstatuses, halive, ?_⟩
  obtain ⟨first, last, rfl⟩ : ∃ first last : SetCall, calls = [first, last] := by
    have hlength := congrArg List.length hstatuses
    rw [List.length_map] at hlength
    exact List.length_eq_two.mp hlength
  have hrefused : last.Refused := by
    simp only [List.map_cons, List.map_nil, List.cons.injEq] at hstatuses
    exact .inl hstatuses.2.1
  exact not_harmlessRefusal_of_reachable (InstanceReachable.of_run hrun) hhandle rfl hrefused

/-- One key takes the whole storage: a second one is refused, and the instance ends. -/
theorem not_harmlessRefusal :
    ¬ ∀ (config : Config) (mountPoint : CString) (state next : InstanceState)
      (request : SetRequest) (calls : List SetCall) (call : SetCall),
      InstanceReachable config mountPoint state →
      handleRequest config state (.set request) = some (next, calls) →
      calls.getLast? = some call → call.Refused → HarmlessRefusal config state next := by
  intro hclaim
  obtain ⟨finish, hrun, hcheck⟩ := PartialStep.exists_run_of_execute
    (instanceStep threeEntries) (freshInstance threeEntries [])
    ([.set ⟨true, literal [97], literal [120, 120, 120], by decide, true⟩])
    (fun traced =>
      (handleRequest threeEntries traced.state
        (.set ⟨true, literal [98], literal [120], by decide, true⟩)).any
          fun handled : InstanceState × List SetCall => decide (handled.2.map SetCall.status =
              [StatusCi.noSpace]) && !handled.1.instanceIsAlive) (by decide +kernel)
  obtain ⟨⟨next, calls⟩, hhandle, hcheck⟩ := (Option.any_eq_true _ _).mp hcheck
  rw [Bool.and_eq_true, decide_eq_true_eq, Bool.not_eq_true'] at hcheck
  obtain ⟨hstatuses, hdead⟩ := hcheck
  obtain ⟨call, rfl⟩ : ∃ call : SetCall, calls = [call] := by
    have hlength := congrArg List.length hstatuses
    rw [List.length_map] at hlength
    exact List.length_eq_one_iff.mp hlength
  have hrefused : call.Refused := by
    simp only [List.map_cons, List.map_nil, List.cons.injEq, and_true] at hstatuses
    exact .inl hstatuses
  have hharmless := hclaim threeEntries [] finish.state next _ [call] call
    (InstanceReachable.of_run hrun) hhandle rfl hrefused
  rw [hharmless.serving] at hdead
  cases hdead

end SockMyPort.Instancia
