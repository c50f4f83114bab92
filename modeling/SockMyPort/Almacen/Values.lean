/-
# No stale values

While the key table assigns a key to an instance and no SET of it is in flight, what the
instance answers for the key is the value that was set last, or that it has replaced the
key. The instance must not be started again in the meantime: a new process recovers what is
on disk, which may be older.
-/

import SockMyPort.Almacen.Answers
import SockMyPort.Instancia.CrashRecovery
import SockMyPort.Instancia.LiveMemory

namespace SockMyPort.Almacen

open SockMyPort.Commons SockMyPort.Coordinador SockMyPort.Instancia Library

/-! ## One instance -/

/-- What an instance has of a key in memory, now or after the compaction that a SET waits
for, is a value or nothing. -/
structure Fresh (config : Instancia.Config) (key value : CString) (process : InstanceProcess) :
    Prop where
  started : process.filed.phase ≠ .starting
  memory : ∀ bytes, contents config process.filed.state key = some bytes → bytes = bytesOf value
  compacting : ∀ keyValue replacedKeys, process.filed.phase = .compacting keyValue replacedKeys →
    keyValue.key = key → keyValue.value = value

section Instances

variable {config : Instancia.Config} {process next : InstanceProcess} {key value : CString}

/-- What is remembered of a key in memory is what the contents are. -/
theorem memoryOnly_iff {state : InstanceState} {store : InstanceStore}
    (hremembers : Remembers config state store) :
    WriteBack.MemoryOnly key value store ↔
      ∀ bytes, contents config state key = some bytes → bytes = bytesOf value := by
  constructor
  · intro honly bytes hbytes
    rw [hremembers key] at hbytes
    obtain ⟨found, hfound, rfl⟩ := Option.map_eq_some_iff.mp hbytes
    rw [honly found hfound]
  · intro hcontents found hfound
    have hbytes := hcontents (bytesOf found) (by rw [hremembers key, hfound, Option.map_some])
    have hvalue := congrArg messengerBytesToString hbytes
    rwa [messengerBytesToString_bytesOf, messengerBytesToString_bytesOf] at hvalue

/-- What is read for a key. -/
theorem Fresh.eq_of_status (h : Fresh config key value process) {keyValue : KeyValue}
    (hstatus : instanceStatus config process.filed.state key = some keyValue) :
    keyValue = keyValueCreate key value := by
  rw [instanceStatus_eq_contents] at hstatus
  obtain ⟨bytes, hbytes, rfl⟩ := Option.map_eq_some_iff.mp hstatus
  rw [h.memory bytes hbytes, stringOf_bytesOf_append_zero]

/-- A process that has recovered its keys does not recover any again. -/
theorem recover_not_mem_turnOperations {start : Dumper} {filed : FiledInstance start}
    {event : ThreadEvent} {turn : Turn filed.state} (hstarted : filed.phase ≠ .starting)
    (hturn : takeTurn config filed event = some turn) :
    .recover key ∉ turnOperations config filed event := by
  have hset : ∀ (state : InstanceState) (keyValue : KeyValue) (replacedKeys : List CString),
      .recover key ∉ setOperations config state keyValue replacedKeys
        (.put keyValue.key keyValue.value) := by
    intro state keyValue replacedKeys hmem
    obtain hmem | hmem := List.mem_append.mp hmem
    · obtain ⟨use, -, hmem⟩ := List.mem_flatMap.mp hmem
      cases use <;> simp [DumperUse.operations] at hmem
    · cases hstatus : (instanceSet config state keyValue replacedKeys).status <;>
        simp [hstatus, StatusCi.operations] at hmem
  cases event with
  | recover keys =>
      simp only [takeTurn] at hturn
      split at hturn
      · exact absurd ‹_› hstarted
      all_goals simp_all
  | request request =>
      cases request with
      | set request =>
          simp only [turnOperations, requestOperations]
          split
          · exact List.not_mem_nil
          · exact hset _ _ _
      | store | dump =>
          intro hmem
          cases List.mem_singleton.mp hmem
      | compact | requestValue | isAlive | kill => exact List.not_mem_nil
  | compactAndSet =>
      simp only [turnOperations]
      split
      · exact hset _ _ _
      · exact List.not_mem_nil

/-- A turn does not go back to the recovery. -/
theorem started_of_takeTurn {start : Dumper} {filed : FiledInstance start}
    {event : ThreadEvent} {turn : Turn filed.state} (hstarted : filed.phase ≠ .starting)
    (hturn : takeTurn config filed event = some turn) : turn.phase ≠ .starting := by
  simp only [takeTurn] at hturn
  split at hturn
  · exact absurd ‹_› hstarted
  · cases hturn
  · obtain rfl := Option.some.inj hturn
    exact hstarted
  · rename_i request _ _
    split at hturn
    · obtain rfl := Option.some.inj hturn
      exact phase_requestTurn_ne _ request
    · cases hturn
  · obtain rfl := Option.some.inj hturn
    exact Phase.noConfusion
  · cases hturn

/-- **What an instance does** that is not started again brings no other value. -/
theorem Fresh.step (h : Fresh config key value process) (hworks : Working config process)
    {event : LifeEvent} (hgoes : event.restarts = false)
    (hset : ∀ request, event = .thread (.request (.set request)) →
      request.keyValue.key = key → request.keyValue.value = value)
    (hstep : lifeStep config process event = some next) : Fresh config key value next := by
  have hwaiting : ∀ keyValue replacedKeys, next.filed.phase = .compacting keyValue replacedKeys →
      keyValue.key = key → keyValue.value = value := fun keyValue replacedKeys hphase hkey => by
    obtain ⟨request, hevent, rfl⟩ | hbefore := phase_of_lifeStep hstep hphase
    · exact hset request hevent hkey
    · exact h.compacting keyValue replacedKeys hbefore hkey
  cases event with
  | restart | restartDuring => cases hgoes
  | thread event =>
      obtain ⟨turn, hturn, rfl⟩ := Option.map_eq_some_iff.mp hstep
      obtain ⟨store, hmemory⟩ := hworks.remembered
      have hmeans := hworks.turnMeans hmemory hturn fun _ _ => h.started
      refine ⟨started_of_takeTurn h.started hturn, ?_, hwaiting⟩
      refine (memoryOnly_iff hmeans.memory).mp ?_
      refine ((memoryOnly_iff hmemory).mpr h.memory).applyAll fun operation hmem => ?_
      cases operation with
      | put other new =>
          intro hother
          have hput : .put other new ∈ lifeOperations config process (.thread event) := hmem
          obtain ⟨request, hevent, rfl, rfl⟩ | ⟨keyValue, replacedKeys, hphase, rfl, rfl⟩ :=
            put_mem_lifeOperations hput
          · exact hset request hevent hother
          · exact h.compacting keyValue replacedKeys hphase hother
      | recover other =>
          rintro rfl
          exact recover_not_mem_turnOperations h.started hturn hmem
      | drop | evict | store | dump | restart | tear => trivial

/-- **A SET that was answered with success** leaves its value, or it waits for the
compaction. -/
theorem fresh_of_set (hworks : Working config process) {request : SetRequest} {code : ℤ}
    {usedEntries : ℕ}
    (hstep : lifeStep config process (.thread (.request (.set request))) = some next)
    (hsend : request.sendOk = true)
    (hanswer : answerOf config process.filed.state (.set request) = .status code usedEntries)
    (hcode : code = 1 ∨ code = 2) (hshort : request.key.length ≤ 40) :
    Fresh config request.key request.value next := by
  have hkey : request.keyValue.key = request.key := keyValueCreate_key hshort
  obtain ⟨turn, hturn, hnext⟩ := Option.map_eq_some_iff.mp hstep
  obtain ⟨store, hmemory⟩ := hworks.remembered
  have hremembers := (hworks.turnMeans hmemory hturn fun _ hevent => by cases hevent).memory
  have hwaiting : turn = requestTurn config process.filed.state (.set request) := by
    simp only [takeTurn] at hturn
    split at hturn
    all_goals simp_all
  have hphase : next.filed.phase = (beginSet config process.filed.state request).2 := by
    rw [← hnext, hwaiting]
    rfl
  -- The contents are those of the store after the operations.
  have hcontents : ∀ {value : CString}, WriteBack.MemoryOnly request.key value
      (store.applyAll (requestOperations config process.filed.state (.set request))) →
      ∀ bytes, contents config next.filed.state request.key = some bytes →
        bytes = bytesOf value := by
    intro value honly
    rw [← hnext]
    exact (memoryOnly_iff hremembers).mp honly
  obtain ⟨hstatus, -⟩ := Outcome.status.inj hanswer
  cases hknown : request.isNew ||
      entryTableHasKey process.filed.state.entryTable request.keyValue.key request.isNew with
  | false =>
      simp only [instanceThreadApiSet, hknown, Bool.not_false, if_true] at hstatus
      rw [← hstatus] at hcode
      exact absurd hcode (by decide)
  | true =>
      simp only [instanceThreadApiSet, hknown, hsend, Bool.not_true, Bool.false_eq_true,
        if_false] at hstatus
      simp only [requestOperations, hknown, Bool.not_true, Bool.false_eq_true, if_false,
        setOperations, WriteBack.applyAll_append] at hcontents
      simp only [beginSet, hknown, hsend, Bool.not_true, Bool.false_eq_true, if_false] at hphase
      cases hset : (instanceSet config process.filed.state request.keyValue []).status with
      | ok =>
          simp only [hset, StatusCi.operations, WriteBack.applyAll_cons,
            WriteBack.applyAll_nil, hkey] at hcontents hphase
          refine ⟨by rw [hphase]; exact Phase.noConfusion,
            hcontents (WriteBack.memoryOnly_put _ _ _), fun keyValue replacedKeys hcompacting => ?_⟩
          rw [hphase] at hcompacting
          cases hcompacting
      | compact =>
          simp only [hset, StatusCi.operations, WriteBack.applyAll_cons,
            WriteBack.applyAll_nil, hkey] at hcontents hphase
          refine ⟨by rw [hphase]; exact Phase.noConfusion,
            hcontents (WriteBack.memoryOnly_drop _ _ _),
            fun keyValue replacedKeys hcompacting _ => ?_⟩
          rw [hphase] at hcompacting
          rw [← (Phase.compacting.inj hcompacting).1]
          rfl
      | replaced | noSpace | error =>
          simp only [hset] at hstatus
          rw [← hstatus] at hcode
          exact absurd hcode (by decide)

/-- **A STORE that was answered with success** has brought the value to the disk. -/
theorem settled_of_store {sendOk : Bool} {code : ℤ} {usedEntries : ℕ}
    (h : Represents config process) (hfresh : Fresh config key value process)
    (hstep : lifeStep config process (.thread (.request (.store key sendOk))) = some next)
    (hanswer : answerOf config process.filed.state (.store key sendOk) = .status code usedEntries)
    (hcode : code = 1) : WriteBack.Settled key value next.store := by
  obtain ⟨hstatus, -⟩ := Outcome.status.inj hanswer
  have hstore : next.store = process.store.apply (.store key) := store_lifeStep hstep
  have hcontents := h.memory key
  cases hget : entryTableGetEntry process.filed.state.entryTable key with
  | none =>
      simp only [instanceStore, hget] at hstatus
      rw [← hstatus] at hcode
      exact absurd hcode (by decide)
  | some entry =>
      rw [contents, hget, Option.map_some] at hcontents
      obtain ⟨found, hfound, -⟩ := Option.map_eq_some_iff.mp hcontents.symm
      rw [hstore, ← (memoryOnly_iff h.memory).mpr hfresh.memory found hfound]
      exact WriteBack.settled_store hfound

end Instances

/-! ## All instances -/

section Peers

variable {config : InstanceRef → Instancia.Config} {peers next : InstanceRef → InstanceProcess}
  {node other : InstanceRef} {request : RequestNode} {fate : Fate} {outcome : Outcome}
  {isNew : Bool} {key value : CString}

/-- An instance does something that is neither its start nor a SET of another value. -/
theorem Fresh.acts (h : Fresh (config other) key value (peers other))
    (hworks : ∀ node, Working (config node) (peers node)) {event : LifeEvent}
    (hacts : Acts config peers next node event) (hgoes : other = node → event.restarts = false)
    (hset : ∀ request, event = .thread (.request (.set request)) →
      request.keyValue.key = key → request.keyValue.value = value) :
    Fresh (config other) key value (next other) := by
  obtain ⟨process, hprocess, rfl⟩ := hacts
  by_cases hother : other = node
  · subst hother
    rw [Function.update_self]
    exact h.step (hworks other) (hgoes rfl) hset hprocess
  · rwa [Function.update_of_ne hother]

theorem instruction_eq_set {sendOk : Bool} {asked : SetRequest}
    (hasked : instruction isNew request sendOk = some (.set asked)) :
    request.type = .set asked.value ∧ asked.key = request.key ∧ asked.sendOk = sendOk := by
  simp only [instruction] at hasked
  split at hasked
  · rename_i htype
    split at hasked
    · obtain rfl := Request.set.inj (Option.some.inj hasked)
      exact ⟨htype, rfl, rfl⟩
    · cases hasked
  · cases hasked

/-- An instance is asked for something else. -/
theorem Fresh.exchanged (h : Fresh (config other) key value (peers other))
    (hworks : ∀ node, Working (config node) (peers node))
    (hexchanged : Exchanged config isNew peers next node request fate outcome)
    (hother : request.type = .store ∨ request.key ≠ key) (hshort : request.key.length ≤ 40) :
    Fresh (config other) key value (next other) := by
  have hset : ∀ sendOk asked, instruction isNew request sendOk = some asked →
      ∀ set : SetRequest, LifeEvent.thread (.request asked) = .thread (.request (.set set)) →
        set.keyValue.key = key → set.keyValue.value = value := by
    intro sendOk asked hasked set hevent hkey
    obtain rfl := ThreadEvent.request.inj (LifeEvent.thread.inj hevent)
    obtain ⟨htype, hsame, -⟩ := instruction_eq_set hasked
    have hkept : set.keyValue.key = request.key := by
      rw [← hsame]
      exact keyValueCreate_key (hsame ▸ hshort)
    obtain hstore | hne := hother
    · rw [htype] at hstore
      cases hstore
    · exact absurd (hkept.symm.trans hkey) hne
  cases hexchanged with
  | sendFailure hpeers | recvFailure hpeers => exact hpeers ▸ h
  | answerLost hasked hacts => exact h.acts hworks hacts (fun _ => rfl) (hset _ _ hasked)
  | answered hasked hacts => exact h.acts hworks hacts (fun _ => rfl) (hset _ _ hasked)

/-- An instance is asked to SET the key. -/
theorem fresh_of_exchanged (hworks : ∀ node, Working (config node) (peers node)) {code : ℤ}
    {usedEntries : ℕ} (htype : request.type = .set value)
    (hexchanged : Exchanged config isNew peers next node request fate outcome)
    (houtcome : outcome = .status code usedEntries) (hcode : code = 1 ∨ code = 2)
    (hshort : request.key.length ≤ 40) : Fresh (config node) request.key value (next node) := by
  cases hexchanged with
  | sendFailure | recvFailure | answerLost => cases houtcome
  | answered hasked hacts =>
      obtain ⟨process, hprocess, rfl⟩ := hacts
      rw [Function.update_self]
      simp only [instruction, htype] at hasked
      split at hasked
      · obtain rfl := Option.some.inj hasked
        exact fresh_of_set (hworks node) hprocess rfl houtcome hcode hshort
      · cases hasked

end Peers

/-! ## What was set last -/

/-- The value of a SET. -/
def setValue : RequestType → Option CString
  | .set value => some value
  | .store => none

/-- The value of the last SET. -/
def lastSet (asked : List (ℤ × RequestType)) : Option CString :=
  (asked.filterMap fun question => setValue question.2).getLast?

theorem lastSet_set (asked : List (ℤ × RequestType)) (esiFd : ℤ) (value : CString) :
    lastSet (asked ++ [(esiFd, .set value)]) = some value := by
  rw [lastSet, List.filterMap_append]
  exact List.getLast?_concat

theorem lastSet_store (asked : List (ℤ × RequestType)) (esiFd : ℤ) :
    lastSet (asked ++ [(esiFd, .store)]) = lastSet asked := by
  rw [lastSet, List.filterMap_append]
  exact congrArg List.getLast? (List.append_nil _)

/-- An instance that has the key keeps the value that was set last, as long as no SET of it
is in flight, and also when it has answered such a SET with success. -/
structure Kept (config : InstanceRef → Instancia.Config) (almacen : AlmacenState) (key : CString)
    (asked : List (ℤ × RequestType)) : Prop where
  settled : (∀ place ∈ almacen.about key, place.request.type = .store) →
    ∀ node, keyTableGet almacen.tables key = some ⟨true, some node⟩ →
      ∃ value, lastSet asked = some value ∧ Fresh (config node) key value (almacen.peers node)
  answered : ∀ place ∈ almacen.about key, ∀ value, place.request.type = .set value →
    ∀ code usedEntries, place.stage = .answered (.status code usedEntries) → code = 1 ∨ code = 2 →
      Fresh (config place.node) key value (almacen.peers place.node)

/-- What `esi_check_key_size` lets through. -/
def keepsSizes : AlmacenEvent → Bool
  | .request _ _ key => key.length ≤ 40
  | _ => true

/-- The instance that has the key is not started again. -/
def keepsHolder (key : CString) (almacen : AlmacenState) : AlmacenEvent → Bool
  | .peer node event => !event.restarts || keyTableGetInstance almacen.tables key ≠ some node
  | _ => true

/-- The keys of all requests are short. -/
def ShortKeys (almacen : AlmacenState) : Prop :=
  ∀ place ∈ almacen.places, place.request.key.length ≤ 40

section Steps

variable {setup : Setup} {config : InstanceRef → Instancia.Config} {almacen next : AlmacenState}
  {key : CString} {asked : List (ℤ × RequestType)} {conversations : List Conversation}
  {event : AlmacenEvent} {place : Place}

theorem ShortKeys.step (h : ShortKeys almacen) (hsizes : keepsSizes event = true)
    (hmove : Move setup config almacen next event) : ShortKeys next := by
  intro moved hmem
  cases hmove with
  | stay hplaces => exact h moved (hplaces.mem_iff.mp hmem)
  | refuse hplaces => exact h moved (hplaces ▸ hmem)
  | enter _ hplaces =>
      obtain rfl | hmem := List.mem_cons.mp (hplaces.mem_iff.mp hmem)
      · exact of_decide_eq_true hsizes
      · exact h moved hmem
  | pop hbefore hafter =>
      have hfirst := h _ (hbefore.mem_iff.mpr List.mem_cons_self)
      obtain rfl | hmem := List.mem_cons.mp (hafter.mem_iff.mp hmem)
      · exact hfirst
      · exact h moved (hbefore.mem_iff.mpr (List.mem_cons_of_mem _ hmem))
  | exchange _ _ hbefore hafter =>
      have hfirst := h _ (hbefore.mem_iff.mpr List.mem_cons_self)
      obtain rfl | hmem := List.mem_cons.mp (hafter.mem_iff.mp hmem)
      · exact hfirst
      · exact h moved (hbefore.mem_iff.mpr (List.mem_cons_of_mem _ hmem))
  | refuseStore _ _ _ hbefore hafter =>
      exact h moved (hbefore.mem_iff.mpr (List.mem_cons_of_mem _ (hafter.mem_iff.mp hmem)))
  | conclude hbefore hafter =>
      have hfirst := h _ (hbefore.mem_iff.mpr List.mem_cons_self)
      obtain hmem | hmem := List.mem_append.mp (hafter.mem_iff.mp hmem)
      · obtain ⟨⟨again, queued⟩, hqueued, rfl⟩ := List.mem_map.mp hmem
        have hkey := key_of_handleAnswer (Option.mem_toList.mp hqueued)
        exact (congrArg List.length hkey).trans_le hfirst
      · exact h moved (hbefore.mem_iff.mpr (List.mem_cons_of_mem _ hmem))

/-- What is known of a request about the key. -/
theorem Serialized.inFlight_of_mem (h : Serialized almacen key asked conversations)
    (hmem : place ∈ almacen.about key) :
    InFlight almacen.tables key (holder conversations) place := by
  obtain ⟨pending, effects, hcurrent, -, -⟩ := h.current
  generalize almacen.about key = places at hcurrent hmem
  cases hcurrent with
  | quiet => cases hmem
  | inFlight hplace => exact List.mem_singleton.mp hmem ▸ hplace

theorem InFlight.keyTableGetInstance_eq {tables : Tables} {before : Option InstanceRef}
    (h : InFlight tables key before place) : keyTableGetInstance tables key = some place.node := by
  obtain ⟨initialized, hget, -⟩ := h.assigned
  rw [keyTableGetInstance, hget]
  rfl

/-- A step that leaves the key alone, also on the instance that has it. -/
theorem Kept.untouched (h : Kept config almacen key asked)
    (hserialized : Serialized almacen key asked conversations)
    (helsewhere : Elsewhere key almacen next)
    (hpeers : ∀ node value, keyTableGetInstance almacen.tables key = some node →
      Fresh (config node) key value (almacen.peers node) →
        Fresh (config node) key value (next.peers node)) :
    Kept config next key asked := by
  refine ⟨fun hstores node hget => ?_,
    fun place hmem value htype code usedEntries hstage hcode => ?_⟩
  · rw [helsewhere.leaves.entry] at hget
    obtain ⟨value, hvalue, hfresh⟩ :=
      h.settled (fun place hmem => hstores place (helsewhere.about.mem_iff.mpr hmem)) node hget
    refine ⟨value, hvalue, hpeers node value ?_ hfresh⟩
    rw [keyTableGetInstance, hget]
    rfl
  · have hmem := helsewhere.about.mem_iff.mp hmem
    exact hpeers place.node value (hserialized.inFlight_of_mem hmem).keyTableGetInstance_eq
      (h.answered place hmem value htype code usedEntries hstage hcode)

/-- A SET that failed leaves no initialized key. -/
theorem keyTableGet_instanceDispatchFailedSet {left : Tables} {node other : InstanceRef}
    {request : RequestNode} (hleft : keyTableGet left request.key = none) (success : Bool) :
    keyTableGet (instanceDispatchFailedSet setup left node request success).tables request.key ≠
      some ⟨true, some other⟩ := by
  have hdispatch : dispatch setup left request.key (request.excludedInstances ++ [node]) =
      distribute setup left request.key (request.excludedInstances ++ [node]) := by
    rw [dispatch, keyTableGetInstance, hleft]
    rfl
  have hentry : EntryAfter (keyTableGet left request.key) none := .inl hleft
  obtain ⟨-, hnobody, hsomebody⟩ := hentry.distribute hdispatch.symm
  rw [instanceDispatchFailedSet]
  revert hnobody hsomebody
  generalize dispatch setup left request.key (request.excludedInstances ++ [node]) = result
  obtain ⟨chosen, dispatched⟩ := result
  intro hnobody hsomebody hget
  cases chosen with
  | none =>
      have hget : keyTableGet dispatched request.key = some ⟨true, some other⟩ := hget
      obtain hnone | hcreated := hnobody rfl
      · cases hget.symm.trans hnone
      · cases hget.symm.trans hcreated
  | some again =>
      obtain ⟨-, -, hchosen⟩ := hsomebody again rfl
      cases hget.symm.trans hchosen

/-- A key that is initialized after a SET was set with success. -/
theorem success_of_set {tables : Tables} {before : Option InstanceRef} {node other : InstanceRef}
    {request : RequestNode} {outcome : Outcome} {value : CString}
    (hplace : InFlight tables key before ⟨node, request, .answered outcome⟩)
    (htype : request.type = .set value)
    (hget : keyTableGet (handleAnswer setup tables node request outcome).tables key =
      some ⟨true, some other⟩) :
    other = node ∧ ∃ code usedEntries, outcome = .status code usedEntries ∧
      (code = 1 ∨ code = 2) := by
  obtain rfl : request.key = key := hplace.sameKey
  rw [handleAnswer, htype] at hget
  dsimp only at hget
  cases outcome with
  | sendFailure | recvFailure =>
      exact absurd hget (keyTableGet_instanceDispatchFailedSet keyTableGet_keyTableRemove false)
  | status code usedEntries =>
      simp only [instanceHandleSetRequest] at hget
      split at hget
      · rename_i hcode
        have hassigned : keyTableGetInstance (setUsedEntries tables node usedEntries)
            request.key = some node := hplace.keyTableGetInstance_eq
        have hget : keyTableGet (keyTableSetInitialized (setUsedEntries tables node usedEntries)
          request.key) request.key = some ⟨true, some other⟩ := hget
        rw [keyTableGet_keyTableSetInitialized hassigned] at hget
        cases hget
        exact ⟨rfl, code, usedEntries, rfl, hcode⟩
      · split at hget
        · cases hget.symm.trans keyTableGet_keyTableRemove
        · exact absurd hget
            (keyTableGet_instanceDispatchFailedSet keyTableGet_keyTableRemove _)

/-- A STORE changes no entry that it leaves. -/
theorem keyTableGet_of_store {tables : Tables} {node : InstanceRef} {request : RequestNode}
    {outcome : Outcome} {data : KeyTableData} (htype : request.type = .store)
    (hget : keyTableGet (handleAnswer setup tables node request outcome).tables request.key =
      some data) : keyTableGet tables request.key = some data := by
  rw [handleAnswer, htype] at hget
  dsimp only at hget
  cases outcome with
  | sendFailure | recvFailure => cases hget.symm.trans keyTableGet_keyTableRemove
  | status code usedEntries =>
      simp only [instanceHandleStoreRequest] at hget
      split at hget
      · exact hget
      · cases hget.symm.trans keyTableGet_keyTableRemove

/-- No request about the key is in flight. -/
theorem kept_of_quiet (habout : almacen.about key = [])
    (hsettled : ∀ node, keyTableGet almacen.tables key = some ⟨true, some node⟩ →
      ∃ value, lastSet asked = some value ∧ Fresh (config node) key value (almacen.peers node)) :
    Kept config almacen key asked := by
  refine ⟨fun _ => hsettled, fun place hmem => ?_⟩
  rw [habout] at hmem
  cases hmem

/-- One request about the key is in flight. -/
theorem kept_of_place (habout : almacen.about key = [place])
    (hstore : place.request.type = .store → ∀ node,
      keyTableGet almacen.tables key = some ⟨true, some node⟩ →
        ∃ value, lastSet asked = some value ∧ Fresh (config node) key value (almacen.peers node))
    (hset : ∀ value, place.request.type = .set value → ∀ code usedEntries,
      place.stage = .answered (.status code usedEntries) → code = 1 ∨ code = 2 →
        Fresh (config place.node) key value (almacen.peers place.node)) :
    Kept config almacen key asked := by
  constructor
  · intro hstores
    exact hstore (hstores place (habout ▸ List.mem_singleton_self place))
  · intro other hmem
    rw [habout] at hmem
    rw [List.mem_singleton.mp hmem]
    exact hset

/-- A new request about the key. -/
theorem Kept.request (h : Kept config almacen key asked)
    (hserialized : Serialized almacen key asked conversations) {esiFd : ℤ} {type : RequestType}
    (hquiet : almacen.isQuiet key = true)
    (hmove : Move setup config almacen next (.request esiFd type key)) :
    Kept config next key (asked ++ [(esiFd, type)]) := by
  obtain ⟨habout, hentry, -, -⟩ := hserialized.of_quiet hquiet
  have hknown := fun node => @Sequence.mem_of_holder _ _ node hserialized.sequence
  cases hmove with
  | stay _ _ hrequest => exact absurd rfl (hrequest esiFd type key)
  | refuse hplaces hdispatch =>
      obtain ⟨-, hnobody, -⟩ := hentry.dispatch hknown hdispatch
      refine kept_of_quiet
        (List.perm_nil.mp ((about_of_perm (.of_eq hplaces)).trans (.of_eq habout))) ?_
      intro node hget
      obtain hnone | hcreated := hnobody rfl
      · cases hget.symm.trans hnone
      · cases hget.symm.trans hcreated
  | enter hdispatch hplaces hlog hpeers =>
      rename_i chosen
      obtain ⟨-, -, hsomebody⟩ := hentry.dispatch hknown hdispatch
      obtain ⟨-, initialized, hchosen, hholder⟩ := hsomebody chosen rfl
      have hnext : (next.about key).Perm [⟨chosen, ⟨esiFd, type, key, []⟩, .queued⟩] := by
        refine (about_of_perm hplaces).trans ?_
        rw [List.filter_cons_of_pos (by simp)]
        exact .of_eq (congrArg _ habout)
      refine kept_of_place (List.perm_singleton.mp hnext) (fun htype node hget => ?_)
        fun value _ code usedEntries hstage => by cases hstage
      -- the instance that had the key is asked to store it
      obtain rfl : type = .store := htype
      obtain ⟨rfl, rfl⟩ : true = initialized ∧ node = chosen := by
        have hboth := hget.symm.trans hchosen
        simpa using hboth
      rw [hholder rfl] at hentry
      rw [lastSet_store, hpeers]
      refine h.settled (fun place hmem => ?_) node hentry
      rw [habout] at hmem
      cases hmem

/-- A request about the key begins its turn. -/
theorem Kept.pop (h : Kept config almacen key asked)
    (hserialized : Serialized almacen key asked conversations) {node : InstanceRef}
    {request : RequestNode} {rest : List Place} (hkey : request.key = key)
    (hbefore : almacen.places.Perm (⟨node, request, .queued⟩ :: rest))
    (hafter : next.places.Perm (⟨node, request, .handling⟩ :: rest))
    (htables : next.tables = almacen.tables) (hpeers : next.peers = almacen.peers) :
    Kept config next key asked := by
  obtain ⟨-, hrest, -, -⟩ := hserialized.of_place hbefore hkey
  have hnow := @about_of_perm almacen key _ hbefore
  have hnext := @about_of_perm next key _ hafter
  rw [List.filter_cons_of_pos (by simpa using hkey), hrest] at hnow hnext
  refine kept_of_place (List.perm_singleton.mp hnext) (fun htype holder hget => ?_)
    fun value _ code usedEntries hstage => by cases hstage
  rw [htables] at hget
  rw [hpeers]
  refine h.settled (fun place hmem => ?_) holder hget
  rw [List.perm_singleton.mp hnow] at hmem
  exact List.mem_singleton.mp hmem ▸ htype

/-- The exchange of a request about the key. -/
theorem Kept.exchange (h : Kept config almacen key asked)
    (hserialized : Serialized almacen key asked conversations) {node : InstanceRef}
    {request : RequestNode} {outcome : Outcome} {rest : List Place} (hkey : request.key = key)
    (hshort : request.key.length ≤ 40)
    (hbefore : almacen.places.Perm (⟨node, request, .handling⟩ :: rest))
    (hafter : next.places.Perm (⟨node, request, .answered outcome⟩ :: rest))
    (htables : next.tables = almacen.tables)
    {fate : Fate} (hpeers : Exchanged config (keyTableIsNew almacen.tables request.key)
      almacen.peers next.peers node request fate outcome)
    (hworks : ∀ node, Working (config node) (almacen.peers node)) : Kept config next key asked := by
  obtain ⟨-, hrest, -, -⟩ := hserialized.of_place hbefore hkey
  have hnow := @about_of_perm almacen key _ hbefore
  have hnext := @about_of_perm next key _ hafter
  rw [List.filter_cons_of_pos (by simpa using hkey), hrest] at hnow hnext
  refine kept_of_place (List.perm_singleton.mp hnext) (fun htype holder hget => ?_)
    fun value htype code usedEntries hstage hcode => ?_
  · rw [htables] at hget
    obtain ⟨value, hvalue, hfresh⟩ := h.settled (fun place hmem => by
      rw [List.perm_singleton.mp hnow] at hmem
      exact List.mem_singleton.mp hmem ▸ htype) holder hget
    exact ⟨value, hvalue, hfresh.exchanged hworks hpeers (.inl htype) hshort⟩
  · exact hkey ▸ fresh_of_exchanged hworks htype hpeers (Stage.answered.inj hstage) hcode hshort

/-- The end of a turn for the key. -/
theorem Kept.concludes (h : Kept config almacen key asked)
    (hserialized : Serialized almacen key asked conversations) {fd : ℤ} {node : InstanceRef}
    {request : RequestNode} {outcome : Outcome} {rest : List Place} (hkey : request.key = key)
    (hbefore : almacen.places.Perm (⟨node, request, .answered outcome⟩ :: rest))
    (hafter : next.places.Perm
      ((handleAnswer setup almacen.tables node request outcome).queued.toList.map queuedPlace ++
        rest))
    (htables : next.tables =
      afterTurn fd node (handleAnswer setup almacen.tables node request outcome))
    (hpeers : next.peers = almacen.peers) : Kept config next key asked := by
  obtain ⟨hplace, hrest, hasked, -⟩ := hserialized.of_place hbefore hkey
  obtain ⟨hends, -⟩ := @turnEnds_handleAnswer setup _ _ _ _ _ _ hplace
  have hnow := @about_of_perm almacen key _ hbefore
  rw [List.filter_cons_of_pos (by simpa using hkey), hrest] at hnow
  have hentry : keyTableGet next.tables key =
      keyTableGet (handleAnswer setup almacen.tables node request outcome).tables key := by
    rw [htables]
    exact (leaves_afterTurn fd node).entry
  -- what the instance has when the key is initialized
  have hkept : ∀ other, keyTableGet next.tables key = some ⟨true, some other⟩ →
      ∃ value, lastSet asked = some value ∧ Fresh (config other) key value (next.peers other) := by
    intro other hget
    rw [hentry] at hget
    rw [hpeers]
    cases htype : request.type with
    | set value =>
        obtain ⟨rfl, code, usedEntries, rfl, hcode⟩ := success_of_set hplace htype hget
        refine ⟨value, ?_, ?_⟩
        · rw [hasked, show request.type = .set value from htype]
          exact lastSet_set _ _ _
        · refine h.answered ⟨other, request, .answered (.status code usedEntries)⟩ ?_ value
            htype code
            usedEntries rfl hcode
          rw [List.perm_singleton.mp hnow]
          exact List.mem_singleton_self _
    | store =>
        rw [← hkey] at hget
        refine h.settled (fun place hmem => ?_) other (hkey ▸ keyTableGet_of_store htype hget)
        rw [List.perm_singleton.mp hnow] at hmem
        exact List.mem_singleton.mp hmem ▸ htype
  have hnext := @about_of_perm next key _ hafter
  cases hends with
  | replied reply hqueued =>
      rw [hqueued] at hnext
      exact kept_of_quiet (List.perm_nil.mp (hnext.trans (.of_eq hrest))) hkept
  | dispatched heffects hqueued hother =>
      rename_i other
      rw [hqueued] at hnext
      have hmoved : (next.about key).Perm [⟨other, { request with
          excludedInstances := request.excludedInstances ++ [node] }, .queued⟩] := by
        refine hnext.trans ?_
        rw [Option.toList_some, List.map_singleton, List.singleton_append,
          List.filter_cons_of_pos (by exact decide_eq_true hkey), hrest]
        exact .refl _
      exact kept_of_place (List.perm_singleton.mp hmoved) (fun _ => hkept)
        fun value _ code usedEntries hstage => by cases hstage

/-- An instance that has the key goes on having it, whatever the instances do by themselves. -/
theorem Fresh.of_peers {node : InstanceRef} {value : CString}
    (hfresh : Fresh (config node) key value (almacen.peers node))
    (hworks : ∀ node, Working (config node) (almacen.peers node))
    (hholder : keepsHolder key almacen event = true)
    (hnode : keyTableGetInstance almacen.tables key = some node)
    (hpeers : next.peers = almacen.peers ∨ ∃ acting life, event = .peer acting life ∧
      isUninstructed life = true ∧ Acts config almacen.peers next.peers acting life) :
    Fresh (config node) key value (next.peers node) := by
  obtain hsame | ⟨acting, life, rfl, huninstructed, hacts⟩ := hpeers
  · exact hsame ▸ hfresh
  · refine hfresh.acts hworks hacts (fun heq => ?_) fun request hset _ => ?_
    · obtain hgoes | hother := (Bool.or_eq_true _ _).mp hholder
      · simpa using hgoes
      · exact absurd (heq ▸ hnode) (of_decide_eq_true hother)
    · rw [hset] at huninstructed
      cases huninstructed

/-- **One step.** -/
theorem Kept.step (h : Kept config almacen key asked)
    (hserialized : Serialized almacen key asked conversations) (hshort : ShortKeys almacen)
    (hworks : ∀ node, Working (config node) (almacen.peers node))
    (hturns : keepsTurns almacen event = true) (hholder : keepsHolder key almacen event = true)
    (hmove : Move setup config almacen next event) :
    Kept config next key (asked ++ askedAbout key event) := by
  have hstays : askedAbout key event = [] → Kept config next key asked →
      Kept config next key (asked ++ askedAbout key event) := by
    intro hnothing hnext
    rwa [hnothing, List.append_nil]
  cases hmove.about key with
  | elsewhere hasked helsewhere hpeers =>
      exact hstays hasked (h.untouched hserialized helsewhere fun node value hnode hfresh =>
        hfresh.of_peers hworks hholder hnode hpeers)
  | exchangeElsewhere hkey hmem helsewhere hpeers =>
      exact hstays rfl (h.untouched hserialized helsewhere fun node value _ hfresh =>
        hfresh.exchanged hworks hpeers (.inr hkey) (hshort _ hmem))
  | creates hnone habout hdone htables =>
      obtain ⟨hnothing, -, -, -⟩ := hserialized.of_quiet hturns
      refine hstays rfl (kept_of_quiet
        (List.perm_nil.mp (habout.trans (.of_eq hnothing))) fun node hget => ?_)
      rw [htables] at hget
      cases hget.symm.trans keyTableGet_keyTablePut_self
  | asks =>
      rw [askedAbout, if_pos rfl]
      exact h.request hserialized hturns hmove
  | pop hkey hbefore hafter htables hlog hpeers =>
      exact hstays rfl (h.pop hserialized hkey hbefore hafter htables hpeers)
  | exchange hkey hinitialized hbefore hafter htables hlog hpeers =>
      have hsize := hshort _ (hbefore.mem_iff.mpr List.mem_cons_self)
      exact hstays rfl
        (h.exchange hserialized hkey hsize hbefore hafter htables hpeers hworks)
  | refuseStore hkey hstore hbefore hafter htables =>
      obtain ⟨-, hrest, -, -⟩ := hserialized.of_place hbefore hkey
      refine hstays rfl (kept_of_quiet
        (List.perm_nil.mp ((about_of_perm hafter).trans (.of_eq hrest))) fun node hget => ?_)
      rw [htables, hkey] at hget
      cases hget.symm.trans keyTableGet_keyTableRemove
  | conclude hkey hbefore hafter htables hlog hpeers =>
      exact hstays rfl (h.concludes hserialized hkey hbefore hafter htables hpeers)

end Steps

/-! ## Runs -/

/-- What the instances recover are values of distinct keys, and none is empty. -/
def keepsRecoveries (almacen : AlmacenState) : AlmacenEvent → Bool
  | .peer node event => recoversValues (almacen.peers node) event
  | _ => true

/-- What the values of a key rely on. -/
def keepsValues (key : CString) (almacen : AlmacenState) (event : AlmacenEvent) : Bool :=
  keepsTurns almacen event && keepsSizes event && keepsHolder key almacen event &&
    keepsRecoveries almacen event

/-- No SET of a key is in flight. -/
def AlmacenState.setsNothing (almacen : AlmacenState) (key : CString) : Bool :=
  almacen.inFlight.all fun request => request.key ≠ key ∨ request.type = .store

/-- **The invariant** of the values of a key. -/
structure Values (config : InstanceRef → Instancia.Config) (almacen : AlmacenState) (key : CString)
    (asked : List (ℤ × RequestType)) : Prop where
  serialized : ∃ conversations, Serialized almacen key asked conversations
  kept : Kept config almacen key asked
  short : ShortKeys almacen
  peers : ∀ node, Working (config node) (almacen.peers node)

section Runs

variable {setup : Setup} {config : InstanceRef → Instancia.Config}
  {almacen next finish : AlmacenState}
  {mountPoints : InstanceRef → CString} {event : AlmacenEvent} {events : List AlmacenEvent}
  {key : CString} {asked : List (ℤ × RequestType)} {node : InstanceRef}

/-- An instruction recovers nothing. -/
theorem recoversValues_of_lifeEventOf (hrecoveries : keepsRecoveries almacen event = true)
    {acting : InstanceRef} {life : LifeEvent}
    (hacting : lifeEventOf almacen event = some (acting, life)) :
    recoversValues (almacen.peers acting) life = true := by
  cases event with
  | peer other event =>
      obtain ⟨rfl, rfl⟩ := Prod.mk.inj (Option.some.inj hacting)
      exact hrecoveries
  | exchange i fate =>
      simp only [lifeEventOf] at hacting
      split at hacting
      · cases fate with
        | sendFailure | recvFailure => cases hacting
        | answerLost | answered =>
            obtain ⟨asked, -, hasked⟩ := Option.map_eq_some_iff.mp hacting
            obtain ⟨rfl, rfl⟩ := Prod.mk.inj hasked
            rfl
      · cases hacting
  | get | request | connect | pop | conclude => cases hacting

/-- Every instance goes on working. -/
theorem working_of_move (hpeers : ∀ node, Working (config node) (almacen.peers node))
    (hrecoveries : keepsRecoveries almacen event = true)
    (hmove : Move setup config almacen next event) (node : InstanceRef) :
    Working (config node) (next.peers node) := by
  obtain hsame | ⟨acting, life, hacting, process, hprocess, hupdate⟩ := hmove.peers
  · exact hsame ▸ hpeers node
  · have hrecovers := recoversValues_of_lifeEventOf hrecoveries hacting
    rw [hupdate]
    by_cases hnode : node = acting
    · subst hnode
      rw [Function.update_self]
      exact (hpeers node).step hrecovers hprocess
    · rw [Function.update_of_ne hnode]
      exact hpeers node

theorem Values.step (h : Values config almacen key asked)
    (hvalues : keepsValues key almacen event = true)
    (hmove : Move setup config almacen next event) :
    Values config next key (asked ++ askedAbout key event) := by
  simp only [keepsValues, Bool.and_eq_true] at hvalues
  obtain ⟨⟨⟨hturns, hsizes⟩, hholder⟩, hrecoveries⟩ := hvalues
  obtain ⟨conversations, hserialized⟩ := h.serialized
  obtain ⟨more, hnext⟩ := hserialized.step hturns hmove
  exact ⟨⟨_, hnext⟩, h.kept.step hserialized h.short h.peers hturns hholder hmove,
    h.short.step hsizes hmove, working_of_move h.peers hrecoveries hmove⟩

theorem values_init (config : InstanceRef → Instancia.Config) (mountPoints : InstanceRef → CString)
    (key : CString) : Values config (AlmacenState.init config mountPoints) key [] where
  serialized := ⟨[], serialized_init key⟩
  kept := kept_of_quiet rfl fun node hget => by cases hget
  short place hmem := by cases hmem
  peers node := .firstProcess (mountPoints node)

theorem Values.runs (h : Values config almacen key asked)
    (hrun : (almacenStep setup config).Runs
      (fun almacen event => keepsValues key almacen event = true) almacen events finish) :
    Values config finish key (asked ++ events.flatMap (askedAbout key)) := by
  induction hrun generalizing asked with
  | refl => rwa [List.flatMap_nil, List.append_nil]
  | head hvalues hstep _ ih =>
      rw [List.flatMap_cons, ← List.append_assoc]
      exact ih (h.step hvalues (move_of_almacenStep hstep))

/-- What has not been set is not in flight. -/
theorem store_of_setsNothing (hnothing : almacen.setsNothing key = true) {place : Place}
    (hmem : place ∈ almacen.about key) : place.request.type = .store := by
  obtain ⟨hplace, hkey⟩ := List.mem_filter.mp hmem
  have hin : place.request ∈ almacen.inFlight := by
    rw [← map_request_places]
    exact List.mem_map_of_mem hplace
  obtain hne | hstore := of_decide_eq_true (List.all_eq_true.mp hnothing place.request hin)
  · exact absurd (of_decide_eq_true hkey) hne
  · exact hstore

/-- **No stale values**: while an instance has a key and no SET of it is in flight, it
answers with the value that was set last, or it has replaced the key. -/
theorem freshStatus_of_runs (hrun : (almacenStep setup config).Runs
      (fun almacen event => keepsValues key almacen event = true)
      (AlmacenState.init config mountPoints) events finish)
    (hnothing : finish.setsNothing key = true)
    (hholder : keyTableGet finish.tables key = some ⟨true, some node⟩) :
    ∃ value, lastSet (events.flatMap (askedAbout key)) = some value ∧
      ∀ keyValue, instanceStatus (config node) (finish.peers node).filed.state key =
        some keyValue → keyValue = keyValueCreate key value := by
  have hvalues := (values_init config mountPoints key).runs hrun
  obtain ⟨value, hlast, hfresh⟩ :=
    hvalues.kept.settled (fun place => store_of_setsNothing hnothing) node hholder
  exact ⟨value, hlast, fun keyValue hstatus => hfresh.eq_of_status hstatus⟩

end Runs

/-- Every instance has a directory of its own. -/
def ownDirectory (node : InstanceRef) : CString :=
  literal [47] ++ stringRepeatX (node + 1) ++ literal [47]

/-- `a` is set twice on an instance, the other one is killed while it dumps, and `b` is set. -/
def setTwice : List AlmacenEvent :=
  [.connect (literal [112]) 5 0 true true, .connect (literal [113]) 6 1 true true,
    .peer 0 (.thread (.recover [])), .peer 1 (.thread (.recover [])),
    .get (literal [97]), .request 9 (.set (literal [120])) (literal [97]),
    .pop 1, .exchange 1 .answered, .conclude 1,
    .peer 0 (.restartDuring (.request .dump) 0 none), .get (literal [98]),
    .request 8 (.set (literal [120])) (literal [98]),
    .request 9 (.set (literal [121])) (literal [97]), .pop 1, .exchange 1 .answered, .pop 0,
    .conclude 1]

theorem freshStatus_setTwice : ∃ finish,
    (almacenStep ⟨.el, insertionListSort⟩ fun _ => threeEntries).Runs
      (fun almacen event => keepsValues (literal [97]) almacen event = true)
      (AlmacenState.init (fun _ => threeEntries) ownDirectory) setTwice finish ∧
    keyTableGet finish.tables (literal [97]) = some ⟨true, some 1⟩ ∧
    ∃ value, lastSet [(9, .set (literal [120])), (9, .set (literal [121]))] = some value ∧
      ∀ keyValue, instanceStatus threeEntries (finish.peers 1).filed.state (literal [97]) =
        some keyValue → keyValue = keyValueCreate (literal [97]) value := by
  obtain ⟨finish, hrun, hcheck⟩ := PartialStep.exists_run_of_execute
    ((almacenStep ⟨.el, insertionListSort⟩ fun _ => threeEntries).guarded
      (keepsValues (literal [97])))
    (AlmacenState.init (fun _ => threeEntries) ownDirectory) setTwice
    (fun finish => finish.setsNothing (literal [97]) &&
      decide (keyTableGet finish.tables (literal [97]) = some ⟨true, some 1⟩)) (by decide +kernel)
  rw [Bool.and_eq_true, decide_eq_true_eq] at hcheck
  have hguarded := PartialStep.runs_of_guarded hrun
  exact ⟨finish, hguarded, hcheck.2, freshStatus_of_runs hguarded hcheck.1 hcheck.2⟩

end SockMyPort.Almacen
