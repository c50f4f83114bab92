/-
# The instance as a map

The abstract view of an instance is a map from keys to bytes. A call of
`instance_set` first forgets the replaced keys and then, according to its
status, stores the value, drops the key, or does nothing more. This module shows
that the instance refines this view: every operation keeps the invariant, and
changes the contents as its call says.
-/

import SockMyPort.Instancia.Packing
import SockMyPort.Instancia.Instancia
import Mathlib.Data.List.Induction

namespace SockMyPort.Instancia

open SockMyPort.Commons Library

variable {config : Config}

/-! ## The abstract map -/

/-- The contents without some keys. -/
def Contents.forget (contents : Contents) (keys : List CString) : Contents := fun key =>
  if key ∈ keys then none else contents key

@[simp]
theorem Contents.forget_nil (contents : Contents) : contents.forget [] = contents := by
  funext key
  simp [Contents.forget]

/-- Forgetting keys that are absent changes nothing. -/
theorem Contents.forget_of_absent {contents : Contents} {keys : List CString}
    (habsent : ∀ key ∈ keys, contents key = none) : contents.forget keys = contents := by
  funext key
  simp only [Contents.forget]
  split
  · exact (habsent key ‹_›).symm
  · rfl

/-- What a call of `instance_set` means for the map. -/
def SetCall.effect (contents : Contents) (call : SetCall) : Contents :=
  let kept := contents.forget call.replacedKeys
  match call.status with
  | .ok => Function.update kept call.keyValue.key (some (bytesOf call.keyValue.value))
  | .compact => Function.update kept call.keyValue.key none
  | _ => kept

/-- The value of a key after a call: a successful SET of the key stores its
value; its replacement, or a SET of it that needs compaction, drops it. -/
def SetCall.valueAfter (call : SetCall) (key : CString) (current : Option CString) :
    Option CString :=
  if call.keyValue.key = key ∧ call.status = .ok then some call.keyValue.value
  else if key ∈ call.replacedKeys ∨ (call.keyValue.key = key ∧ call.status = .compact) then none
  else current

/-- The value that a key has after some calls. -/
def storedValue (calls : List SetCall) (key : CString) : Option CString :=
  calls.foldl (fun current call => call.valueAfter key current) none

/-- The effect of a call on one key. -/
theorem SetCall.effect_apply {contents : Contents} {key : CString} {current : Option CString}
    (hcurrent : contents key = current.map bytesOf) (call : SetCall) :
    call.effect contents key = (call.valueAfter key current).map bytesOf := by
  obtain ⟨keyValue, replacedKeys, status⟩ := call
  by_cases hkey : keyValue.key = key
  · subst hkey
    cases status <;>
      by_cases hmem : keyValue.key ∈ replacedKeys <;>
        simp [SetCall.effect, SetCall.valueAfter, Contents.forget, hcurrent, hmem]
  · have hne : key ≠ keyValue.key := fun h => hkey h.symm
    cases status <;>
      by_cases hmem : key ∈ replacedKeys <;>
        simp [SetCall.effect, SetCall.valueAfter, Contents.forget, hcurrent, hkey, hne, hmem]

/-- Calls for other keys that do not replace a key leave it alone. -/
theorem foldl_effect_of_other {calls : List SetCall} {key : CString}
    (hother : ∀ call ∈ calls, key ≠ call.keyValue.key)
    (hkept : ∀ call ∈ calls, key ∉ call.replacedKeys) (contents : Contents) :
    calls.foldl SetCall.effect contents key = contents key := by
  induction calls generalizing contents with
  | nil => rfl
  | cons call calls ih =>
      have hkey := hother call (by simp)
      have hlisted := hkept call (by simp)
      rw [List.foldl_cons, ih (fun later hlater => hother later (List.mem_cons_of_mem _ hlater))
        fun later hlater => hkept later (List.mem_cons_of_mem _ hlater)]
      obtain ⟨keyValue, replacedKeys, status⟩ := call
      cases status <;> simp_all [SetCall.effect, Contents.forget]

/-- The map after some calls, key by key. -/
theorem foldl_effect_apply (calls : List SetCall) (key : CString) :
    calls.foldl SetCall.effect (fun _ => none) key = (storedValue calls key).map bytesOf := by
  have hgeneral : ∀ (contents : Contents) (current : Option CString),
      contents key = current.map bytesOf →
      calls.foldl SetCall.effect contents key =
        (calls.foldl (fun current call => call.valueAfter key current) current).map bytesOf := by
    induction calls with
    | nil => exact fun _ _ h => h
    | cons call calls ih => exact fun _ _ hcurrent => ih _ _ (call.effect_apply hcurrent)
  exact hgeneral _ none rfl

/-! ## Operations that leave the store alone -/

/-- The invariant does not depend on the dumper, on the circular pointer, or on
whether the instance is alive. -/
theorem InstanceInvariant.congr {state other : InstanceState}
    (inv : InstanceInvariant config state) (htable : other.entryTable = state.entryTable)
    (hleft : other.entriesLeft = state.entriesLeft) (hstorage : other.storage = state.storage)
    (hstatuses : other.entryTableStatusGlobal = state.entryTableStatusGlobal) :
    InstanceInvariant config other where
  table := by rw [htable, hleft]; exact inv.table
  storage_length := by rw [hstorage]; exact inv.storage_length
  statuses := by rw [hstatuses]; exact inv.statuses

theorem instanceStore_frame (config : Config) (state : InstanceState) (key : CString) :
    ∃ dumper, (instanceStore config state key).1 = { state with dumper := dumper } := by
  simp only [instanceStore]
  split <;> exact ⟨_, rfl⟩

theorem instanceThreadDump_frame (config : Config) (state : InstanceState) :
    ∃ dumper, instanceThreadDump config state = { state with dumper := dumper } := by
  simp only [instanceThreadDump]
  generalize entryTableGetKeyList state.entryTable = keys
  induction keys generalizing state with
  | nil => exact ⟨_, rfl⟩
  | cons key keys ih =>
      obtain ⟨dumper, hdump⟩ : ∃ dumper, dump config state key =
          { state with dumper := dumper } := by
        simp only [dump]
        split <;> exact ⟨_, rfl⟩
      obtain ⟨dumper', hrest⟩ := ih (dump config state key)
      exact ⟨dumper', by rw [List.foldl_cons, hrest, hdump]⟩

/-- **What a request does.** It sets a value, it compacts, or it changes nothing but the
dumper and whether the instance is alive. -/
theorem handleRequest_cases {state next : InstanceState} {request : Request}
    {calls : List SetCall} (hhandle : handleRequest config state request = some (next, calls)) :
    state.instanceIsAlive = true ∧
      ((∃ set, request = .set set ∧ next = (instanceThreadApiSet config state set).state ∧
          calls = (instanceThreadApiSet config state set).calls) ∨
        (request = .compact ∧ next = compactationCompact config state ∧ calls = []) ∨
        ((∀ set, request ≠ .set set) ∧ calls = [] ∧
          ∃ dumper alive, next = { state with dumper := dumper, instanceIsAlive := alive })) := by
  simp only [handleRequest] at hhandle
  split at hhandle
  · cases hhandle
  · rename_i halive
    refine ⟨by simpa using halive, ?_⟩
    cases request with
    | set request =>
        obtain ⟨rfl, rfl⟩ := Prod.mk.inj (Option.some.inj hhandle)
        exact .inl ⟨request, rfl, rfl, rfl⟩
    | store key sendOk =>
        obtain ⟨rfl, rfl⟩ := Prod.mk.inj (Option.some.inj hhandle)
        obtain ⟨dumper, heq⟩ := instanceStore_frame config state key
        exact .inr (.inr ⟨fun _ => Request.noConfusion, rfl, dumper, sendOk, by rw [heq]⟩)
    | compact =>
        obtain ⟨rfl, rfl⟩ := Prod.mk.inj (Option.some.inj hhandle)
        exact .inr (.inl ⟨rfl, rfl, rfl⟩)
    | requestValue key sendOk =>
        obtain ⟨rfl, rfl⟩ := Prod.mk.inj (Option.some.inj hhandle)
        exact .inr (.inr ⟨fun _ => Request.noConfusion, rfl, state.dumper, sendOk, rfl⟩)
    | isAlive =>
        obtain ⟨rfl, rfl⟩ := Prod.mk.inj (Option.some.inj hhandle)
        exact .inr (.inr ⟨fun _ => Request.noConfusion, rfl, state.dumper,
          state.instanceIsAlive, rfl⟩)
    | kill =>
        obtain ⟨rfl, rfl⟩ := Prod.mk.inj (Option.some.inj hhandle)
        exact .inr (.inr ⟨fun _ => Request.noConfusion, rfl, state.dumper, false, rfl⟩)
    | dump =>
        obtain ⟨rfl, rfl⟩ := Prod.mk.inj (Option.some.inj hhandle)
        obtain ⟨dumper, heq⟩ := instanceThreadDump_frame config state
        exact .inr (.inr ⟨fun _ => Request.noConfusion, rfl, dumper, state.instanceIsAlive,
          by rw [heq]⟩)

theorem instanceThreadApiSet_state_of_unknown {state : InstanceState} {request : SetRequest}
    (hunknown : (request.isNew ||
      entryTableHasKey state.entryTable request.keyValue.key false) = false) :
    (instanceThreadApiSet config state request).state = state := by
  obtain ⟨hold, habsent⟩ := Bool.or_eq_false_iff.mp hunknown
  simp [instanceThreadApiSet, hold, habsent]

/-- A request that is handled makes one call or, when that one asks for a compaction and the
answer can be sent, two. -/
theorem instanceThreadApiSet_cases (config : Config) {state : InstanceState}
    {request : SetRequest}
    (hhandled : (request.isNew ||
      entryTableHasKey state.entryTable request.keyValue.key false) = true) :
    let first := instanceSet config state request.keyValue []
    let second := instanceSet config (compactationCompact config first.state) request.keyValue
      first.replacedKeys
    let handling := instanceThreadApiSet config state request
    let call : SetCall := ⟨request.keyValue, first.replacedKeys, first.status⟩
    (∃ alive, handling.state = { first.state with instanceIsAlive := alive } ∧
      handling.calls = [call]) ∨
    (request.sendOk = true ∧ first.status = .compact ∧ handling.state = second.state ∧
      handling.calls = [call, ⟨request.keyValue, second.replacedKeys, second.status⟩]) := by
  intro first second handling call
  have hcase : (request.isNew || entryTableHasKey state.entryTable request.keyValue.key
      request.isNew) = true := by
    cases hisNew : request.isNew
    · simpa [hisNew] using hhandled
    · rfl
  simp only [handling, instanceThreadApiSet, hcase, Bool.not_true, Bool.false_eq_true, if_false]
  split
  · exact .inl ⟨_, rfl, rfl⟩
  · rename_i hsend
    split
    · rename_i hstatus
      exact .inl ⟨_, rfl, by simp only [call, first, hstatus]⟩
    · rename_i hstatus
      exact .inr ⟨by simpa using hsend, hstatus, rfl, by simp only [call, first, second, hstatus]⟩
    · exact .inl ⟨_, rfl, rfl⟩

/-- Every call that a SET request makes is for its own key and value. -/
theorem calls_instanceThreadApiSet (state : InstanceState) (request : SetRequest) :
    ∀ call ∈ (instanceThreadApiSet config state request).calls,
      call.keyValue = request.keyValue := by
  simp only [instanceThreadApiSet]
  split
  · simp
  · split
    · simp
    · split <;> simp

/-! ## Replacing -/

/-- What the replacement step leaves behind: some atomic statuses are given up,
and all keys on the list are gone from the table. -/
structure ReplaceOutcome (config : Config) (state : InstanceState) (replacedKeys : List CString)
    (next : InstanceState) (nextKeys : List CString) : Prop where
  inv : InstanceInvariant config next
  storage : next.storage = state.storage
  evicts : ∃ evicted, nextKeys = replacedKeys ++ evicted ∧
    Evicts state.entryTableStatusGlobal next.entryTableStatusGlobal evicted
  keyShort : ∀ key ∈ nextKeys, key.length ≤ 40
  lookup : ∀ key, entryTableGetEntry next.entryTable key =
    if key ∈ nextKeys then none else entryTableGetEntry state.entryTable key

theorem ReplaceOutcome.contents {state next : InstanceState} {replacedKeys nextKeys : List CString}
    (h : ReplaceOutcome config state replacedKeys next nextKeys) :
    contents config next = (contents config state).forget nextKeys := by
  funext key
  simp only [Instancia.contents, Contents.forget, h.lookup, storageRetrieve, h.storage]
  split <;> rfl

namespace InstanceInvariant

variable {state : InstanceState}

/-- Deleting keys one after another. -/
theorem entryTableDeleteFew (inv : InstanceInvariant config state) {keys : List CString}
    (hshort : ∀ key ∈ keys, key.length ≤ 40) :
    ∃ table left, entryTableDeleteFew config state keys =
        { state with entryTable := table, entriesLeft := left } ∧
      TableInvariant config table left ∧
      ∀ key, entryTableGetEntry table key =
        if key ∈ keys then none else entryTableGetEntry state.entryTable key := by
  induction keys generalizing state with
  | nil => exact ⟨_, _, rfl, inv.table, fun key => by simp⟩
  | cons key keys ih =>
      have hkey := keyValueGenerator_key 0 (hshort key (by simp))
      obtain ⟨left, hdelete⟩ := entryTableDelete_frame config state
        (keyValueGenerator key 0)
      have htable := inv.table.entryTableDelete (keyValueGenerator key 0)
      rw [hkey] at hdelete
      rw [hdelete] at htable
      have hdeleted : InstanceInvariant config
          (entryTableDelete config state (keyValueGenerator key 0)) := by
        rw [hdelete]
        exact ⟨htable, inv.storage_length, inv.statuses⟩
      obtain ⟨table, left', heq, htable', hlookup⟩ := ih hdeleted
        fun other hother => hshort other (List.mem_cons_of_mem _ hother)
      refine ⟨table, left', ?_, htable', fun other => ?_⟩
      · rw [Instancia.entryTableDeleteFew, List.foldl_cons, ← Instancia.entryTableDeleteFew, heq,
          hdelete]
      · rw [hlookup, hdelete, inv.table.getEntry_otherEntries]
        by_cases hmem : other ∈ keys
        · simp [hmem]
        · by_cases hother : other = key <;> simp [hmem, hother]

theorem instanceSetReplace (inv : InstanceInvariant config state) (keyValue : KeyValue)
    (replacedKeys : List CString) (hshort : ∀ key ∈ replacedKeys, key.length ≤ 40)
    (hgone : ∀ key ∈ replacedKeys, entryTableGetEntry state.entryTable key = none) :
    ReplaceOutcome config state replacedKeys
      (instanceSetReplace config state keyValue replacedKeys).1
      (Instancia.instanceSetReplace config state keyValue replacedKeys).2.1 := by
  have hsame : ∀ key, entryTableGetEntry state.entryTable key =
      if key ∈ replacedKeys then none else entryTableGetEntry state.entryTable key := by
    intro key
    split
    · exact hgone key ‹_›
    · rfl
  simp only [Instancia.instanceSetReplace]
  split
  · obtain ⟨evicted, hreplaces, hzero⟩ := algorithmsExec_replaces config
      config.replacementAlgorithm state (List.range state.entryTableStatusGlobal.length) keyValue
      replacedKeys
    generalize algorithmsExec config config.replacementAlgorithm state
      (List.range state.entryTableStatusGlobal.length) keyValue replacedKeys = executed
      at hreplaces hzero ⊢
    obtain ⟨next, nextKeys, result⟩ := executed
    obtain ⟨statuses, pointer, rfl⟩ := hreplaces.frame
    obtain rfl : nextKeys = replacedKeys ++ evicted := hreplaces.replacedKeys
    have hwf := inv.statuses.evicts hreplaces.statuses
    have hexecuted : InstanceInvariant config
        { state with entryTableStatusGlobal := statuses, algorithmCircularPointer := pointer } :=
      ⟨inv.table, inv.storage_length, hwf⟩
    have hkeys : ∀ key ∈ replacedKeys ++ evicted, key.length ≤ 40 := by
      intro key hmem
      rcases List.mem_append.mp hmem with hmem | hmem
      · exact hshort key hmem
      · exact inv.statuses.evicted_short hreplaces.statuses hmem
    split
    · -- the algorithm gave nothing up
      rename_i hresult
      obtain rfl := hzero hresult
      simp only [List.append_nil] at hkeys ⊢
      exact ⟨hexecuted, rfl, ⟨[], (List.append_nil _).symm, hreplaces.statuses⟩, hshort, hsame⟩
    · obtain ⟨table, left, hdeleted, htable, hlookup⟩ := hexecuted.entryTableDeleteFew hkeys
      simp only [hdeleted]
      exact ⟨⟨htable, inv.storage_length, hwf⟩, rfl, ⟨evicted, rfl, hreplaces.statuses⟩, hkeys,
        hlookup⟩
  · exact ⟨inv, rfl, ⟨[], (List.append_nil _).symm, .refl _⟩, hshort, hsame⟩

/-! ## Placing -/

theorem instanceSetPlace (inv : InstanceInvariant config state) (keyValue : KeyValue)
    (hvalue : keyValue.value ≠ []) :
    InstanceInvariant config (instanceSetPlace config state keyValue).1 ∧
      contents config (Instancia.instanceSetPlace config state keyValue).1 =
        SetCall.effect (contents config state)
          ⟨keyValue, [], (Instancia.instanceSetPlace config state keyValue).2⟩ := by
  have hsize : 0 < keyValue.size := by
    rw [keyValue.size_eq]
    exact List.length_pos_of_ne_nil hvalue
  simp only [Instancia.instanceSetPlace]
  split
  · split
    · -- the key is dropped before the compaction
      obtain ⟨left, hdelete⟩ := entryTableDelete_frame config state keyValue
      have htable := inv.table.entryTableDelete keyValue
      rw [hdelete] at htable ⊢
      refine ⟨⟨htable, inv.storage_length, inv.statuses.delete _⟩, ?_⟩
      simp only [SetCall.effect, Contents.forget_nil]
      exact (contents_congr rfl rfl).trans (inv.contents_otherEntries keyValue.key left)
    · rename_i hkey
      refine ⟨inv, ?_⟩
      simp only [hasKey_eq_isSome, Bool.not_eq_true, Option.isSome_eq_false_iff,
        Option.isNone_iff_eq_none] at hkey
      simp only [SetCall.effect, Contents.forget_nil]
      rw [eq_comm, Function.update_eq_self_iff]
      simp only [contents, hkey, Option.map_none]
  · split
    · exact ⟨inv, by simp only [SetCall.effect, Contents.forget_nil]⟩
    · rename_i nextEntry hnext
      split
      · exact ⟨inv, by simp only [SetCall.effect, Contents.forget_nil]⟩
      · rename_i stored hset
        have hstatuses :
            (entryTableInsert config stored nextEntry keyValue).entryTableStatusGlobal =
            state.entryTableStatusGlobal := by
          rw [entryTableInsert_statuses]
          simp only [storageSet] at hset
          split at hset
          · cases hset
          · obtain rfl := Option.some.inj hset
            rfl
        simp only [hstatuses, SetCall.effect, Contents.forget_nil]
        exact inv.place _ _ (by simp [keyValue.size_eq]) hsize
          (inv.table.freeRun_of_nextEntry hnext)
          hset (inv.statuses.add hsize nextEntry)

/-! ## Requests -/

/-- A call of `instance_set` does to the contents what its record says. -/
theorem instanceSet (inv : InstanceInvariant config state) (keyValue : KeyValue)
    (replacedKeys : List CString) (hvalue : keyValue.value ≠ [])
    (hshort : ∀ key ∈ replacedKeys, key.length ≤ 40)
    (hgone : ∀ key ∈ replacedKeys, contents config state key = none) :
    InstanceInvariant config (instanceSet config state keyValue replacedKeys).state ∧
      contents config (Instancia.instanceSet config state keyValue replacedKeys).state =
        SetCall.effect (contents config state)
          ⟨keyValue, (Instancia.instanceSet config state keyValue replacedKeys).replacedKeys,
            (Instancia.instanceSet config state keyValue replacedKeys).status⟩ ∧
      ∀ key ∈ (Instancia.instanceSet config state keyValue replacedKeys).replacedKeys,
        key.length ≤ 40 := by
  have hreplace := inv.instanceSetReplace keyValue _ hshort
    fun key hmem => Option.map_eq_none_iff.mp (hgone key hmem)
  simp only [Instancia.instanceSet]
  split
  · exact ⟨inv, (Contents.forget_of_absent hgone).symm, hshort⟩
  · split
    · rename_i replaced keys heq
      rw [heq] at hreplace
      exact ⟨hreplace.inv, hreplace.contents, hreplace.keyShort⟩
    · rename_i replaced keys heq
      rw [heq] at hreplace
      obtain ⟨hplaced, hcontents⟩ := hreplace.inv.instanceSetPlace _ hvalue
      refine ⟨hplaced, ?_, hreplace.keyShort⟩
      rw [hcontents, hreplace.contents]
      simp only [SetCall.effect, Contents.forget_nil]

/-- After the compaction that a first call asks for, the second one begins with the
invariant and without the keys that the first gave up. -/
theorem second_call (inv : InstanceInvariant config state) {keyValue : KeyValue}
    (hvalue : keyValue.value ≠ [])
    (hstatus : (Instancia.instanceSet config state keyValue []).status = .compact) :
    let first := Instancia.instanceSet config state keyValue []
    InstanceInvariant config (Instancia.compactationCompact config first.state) ∧
      (∀ key ∈ first.replacedKeys, key.length ≤ 40) ∧
      ∀ key ∈ first.replacedKeys,
        contents config (Instancia.compactationCompact config first.state) key = none := by
  intro first
  obtain ⟨hfirst, hcontents, hshort⟩ := inv.instanceSet keyValue [] hvalue (by simp) (by simp)
  obtain ⟨hcompact, hsame, -⟩ := hfirst.compactationCompact
  refine ⟨hcompact, hshort, fun key hmem => ?_⟩
  rw [hsame, hcontents, hstatus]
  simp only [SetCall.effect, Function.update_apply, Contents.forget, first, hmem, if_true, ite_self]

/-- The handling of a SET request does to the contents what its calls say. -/
theorem instanceThreadApiSet (inv : InstanceInvariant config state) (request : SetRequest) :
    InstanceInvariant config (instanceThreadApiSet config state request).state ∧
      contents config (Instancia.instanceThreadApiSet config state request).state =
        (Instancia.instanceThreadApiSet config state request).calls.foldl SetCall.effect
          (contents config state) := by
  obtain ⟨hfirst, hcontents, hshort⟩ := inv.instanceSet request.keyValue []
    request.value_ne (by simp) (by simp)
  simp only [Instancia.instanceThreadApiSet]
  split
  · exact ⟨inv, rfl⟩
  · split
    · exact ⟨hfirst.congr rfl rfl rfl rfl, (contents_congr rfl rfl).trans hcontents⟩
    · split
      · rename_i hstatus
        rw [hstatus] at hcontents
        exact ⟨hfirst, by rw [hstatus]; exact hcontents⟩
      · rename_i hstatus
        obtain ⟨-, hsame, -⟩ := hfirst.compactationCompact
        obtain ⟨hcompact, -, hgone⟩ := inv.second_call request.value_ne hstatus
        obtain ⟨hsecond, hcontents', -⟩ := hcompact.instanceSet request.keyValue _
          request.value_ne hshort hgone
        refine ⟨hsecond, ?_⟩
        rw [hcontents', hsame, hcontents, hstatus]
        rfl
      · exact ⟨hfirst.congr rfl rfl rfl rfl, (contents_congr rfl rfl).trans hcontents⟩

/-- Every request keeps the invariant, and changes the contents as its calls
say. -/
theorem handleRequest (inv : InstanceInvariant config state) {request : Request}
    {next : InstanceState} {calls : List SetCall}
    (hhandle : handleRequest config state request = some (next, calls)) :
    InstanceInvariant config next ∧
      contents config next = calls.foldl SetCall.effect (contents config state) := by
  obtain ⟨-, ⟨set, rfl, rfl, rfl⟩ | ⟨rfl, rfl, rfl⟩ | ⟨-, rfl, dumper, alive, rfl⟩⟩ :=
    handleRequest_cases hhandle
  · exact inv.instanceThreadApiSet set
  · obtain ⟨hcompact, hsame, -⟩ := inv.compactationCompact
    exact ⟨hcompact, hsame⟩
  · exact ⟨inv.congr rfl rfl rfl rfl, contents_congr rfl rfl⟩

end InstanceInvariant

/-! ## Runs -/

theorem instanceInit_invariant (mountPoint : CString) :
    InstanceInvariant config (instanceInit config mountPoint) where
  table := .empty
  storage_length := List.length_replicate
  statuses := .init

theorem contents_instanceInit (mountPoint : CString) :
    contents config (instanceInit config mountPoint) = fun _ => none := rfl

variable (config) in
/-- An instance that represents the map that its calls describe. -/
structure RepresentsCalls (traced : TracedInstance) : Prop where
  inv : InstanceInvariant config traced.state
  contents : contents config traced.state = traced.calls.foldl SetCall.effect fun _ => none

theorem RepresentsCalls.step {traced next : TracedInstance} {request : Request}
    (h : RepresentsCalls config traced) (hstep : instanceStep config traced request = some next) :
    RepresentsCalls config next := by
  simp only [instanceStep, Option.map_eq_some_iff] at hstep
  obtain ⟨⟨state, calls⟩, hhandle, rfl⟩ := hstep
  obtain ⟨hinv, hcontents⟩ := h.inv.handleRequest hhandle
  exact ⟨hinv, by rw [hcontents, h.contents, List.foldl_append]⟩

/-- **The instance refines the map.** -/
theorem representsCalls_of_runs {mountPoint : CString} {events : List Request}
    {ok : TracedInstance → Request → Prop} {finish : TracedInstance}
    (hrun : (instanceStep config).Runs ok (freshInstance config mountPoint) events finish) :
    RepresentsCalls config finish :=
  hrun.invariant _ (fun h _ hstep => h.step hstep)
    ⟨instanceInit_invariant mountPoint, contents_instanceInit mountPoint⟩

theorem InstanceReachable.invariant {mountPoint : CString} {state : InstanceState}
    (hreach : InstanceReachable config mountPoint state) : InstanceInvariant config state := by
  obtain ⟨calls, events, hrun⟩ := hreach
  exact (representsCalls_of_runs hrun).inv

/-- `instance_status` reads the contents. -/
theorem instanceStatus_eq_contents (state : InstanceState) (key : CString) :
    instanceStatus config state key =
      (contents config state key).map fun bytes =>
        keyValueCreate key (stringOf (bytes ++ [0])) := by
  simp only [instanceStatus, contents, Option.map_map]
  rfl

/-- After every run, the status of a key is the value of its last successful
SET, unless the key was replaced or dropped since. Handling another SET changes
the bytes of no key but its own and the replaced ones. -/
theorem instanceStatus_of_runs {mountPoint : CString} {events : List Request}
    {finish : TracedInstance}
    (hrun : (instanceStep config).FreeRuns (freshInstance config mountPoint) events finish) :
    (∀ key, instanceStatus config finish.state key =
      (storedValue finish.calls key).map (keyValueCreate key)) ∧
    ∀ (request : SetRequest) (key : CString), key ≠ request.keyValue.key →
      (∀ call ∈ (instanceThreadApiSet config finish.state request).calls,
        key ∉ call.replacedKeys) →
      contents config (instanceThreadApiSet config finish.state request).state key =
        contents config finish.state key := by
  have hrepresents := representsCalls_of_runs hrun
  refine ⟨fun key => ?_, fun request key hkey hkept => ?_⟩
  · rw [instanceStatus_eq_contents, hrepresents.contents, foldl_effect_apply, Option.map_map]
    congr 1
    funext value
    simp
  · obtain ⟨-, hcontents⟩ := hrepresents.inv.instanceThreadApiSet request
    rw [hcontents]
    refine foldl_effect_of_other (fun call hcall => ?_) hkept _
    rwa [calls_instanceThreadApiSet finish.state request call hcall]

/-- A key that was set twice has its second value. -/
theorem instanceStatus_of_runs_set_twice :
    ∃ finish, (instanceStep threeEntries).FreeRuns (freshInstance threeEntries [])
        [.set ⟨true, literal [107], literal [97, 98], by decide, true⟩,
          .set ⟨false, literal [107], literal [99], by decide, true⟩] finish ∧
      instanceStatus threeEntries finish.state (literal [107]) =
        some (keyValueCreate (literal [107]) (literal [99])) := by
  obtain ⟨finish, hrun, hcheck⟩ := PartialStep.exists_run_of_execute
    (instanceStep threeEntries) (freshInstance threeEntries [])
    ([.set ⟨true, literal [107], literal [97, 98], by decide, true⟩,
      .set ⟨false, literal [107], literal [99], by decide, true⟩])
    (fun traced => decide (storedValue traced.calls (literal [107]) = some (literal [99])))
    (by decide)
  refine ⟨finish, hrun, ?_⟩
  rw [(instanceStatus_of_runs hrun).1, of_decide_eq_true hcheck]
  rfl

variable (config) in
/-- The slots that an entry occupies. -/
def Entry.run (entry : Entry) : List ℕ := List.range' entry.number (entry.slots config)

/-- In every reachable state the entries are strictly ordered, have distinct
keys, occupy disjoint runs inside the storage, and leave the other slots free. -/
theorem slotLayout_of_reachable {mountPoint : CString} {state : InstanceState}
    (hreach : InstanceReachable config mountPoint state) :
    state.entryTable.Pairwise (fun first second => first.number < second.number) ∧
    (state.entryTable.map Entry.key).Nodup ∧
    state.entryTable.Pairwise (fun first second =>
      (first.run config).Disjoint (second.run config)) ∧
    (∀ entry ∈ state.entryTable, ∀ slot ∈ entry.run config, slot < config.totalEntries) ∧
    state.entriesLeft = config.totalEntries -
      (state.entryTable.map fun entry => (entry.run config).length).sum ∧
    0 ≤ state.entriesLeft ∧ state.entriesLeft ≤ config.totalEntries := by
  have inv := hreach.invariant.table
  refine ⟨inv.numbers_lt, inv.keysDistinct, ?_, ?_, ?_, inv.left_nonneg, inv.left_le⟩
  · refine inv.separated.apart.imp fun {first second} hapart => ?_
    intro slot hfirst hsecond
    simp only [Entry.run, List.mem_range'_1] at hfirst hsecond
    rcases hapart with hends | hends <;> omega
  · intro entry hmem slot hslot
    have hinside := inv.inside entry hmem
    simp only [Entry.run, List.mem_range'_1] at hslot
    omega
  · simpa [Entry.run, occupied] using inv.left_eq

/-- After a SET of two entries, one of the three is left. -/
theorem slotLayout_of_reachable_set :
    ∃ state, InstanceReachable threeEntries [] state ∧ state.entryTable.length = 1 ∧
      state.entriesLeft = 1 ∧ (0 ≤ state.entriesLeft ∧ state.entriesLeft ≤ 3) := by
  obtain ⟨finish, hrun, hcheck⟩ := PartialStep.exists_run_of_execute
    (instanceStep threeEntries) (freshInstance threeEntries [])
    ([.set ⟨true, literal [107], literal [97, 98], by decide, true⟩])
    (fun traced => decide (traced.state.entryTable.length = 1 ∧ traced.state.entriesLeft = 1))
    (by decide)
  obtain ⟨hlength, hleft⟩ := of_decide_eq_true hcheck
  have hreach := InstanceReachable.of_run hrun
  obtain ⟨-, -, -, -, -, hnonneg, hle⟩ := slotLayout_of_reachable hreach
  exact ⟨finish.state, hreach, hlength, hleft, hnonneg, hle⟩

end SockMyPort.Instancia
