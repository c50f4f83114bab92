/-
# The files of evicted keys

The instance removes the keys that it evicts from the dumper. Its threads are followed
from one release of the mutex to the next, so that the dump thread can take a turn between
the two calls of `instance_set` that a compaction separates, and every turn is kept
together with the calls of the dumper that it makes.
-/

import SockMyPort.Instancia.Descriptors
import SockMyPort.Instancia.Eviction
import SockMyPort.Instancia.Instancia
import SockMyPort.Instancia.Layout

namespace SockMyPort.Instancia

open SockMyPort.Commons Library

variable (config : Config)

/-! ## The calls of the dumper -/

/-- The calls of `instance_set`: when an algorithm has replaced something, all replaced
keys are removed, also those of an earlier call. -/
def setUses (state : InstanceState) (keyValue : KeyValue) (replacedKeys : List CString) :
    List DumperUse :=
  if !newValueFitsWithReplaced config state keyValue then []
  else if !entryTableHasEntries config state keyValue then
    let executed := algorithmsExec config config.replacementAlgorithm state
      (List.range state.entryTableStatusGlobal.length) keyValue replacedKeys
    if executed.result = 0 then [] else executed.replacedKeys.map .remove
  else []

/-- The calls of `instance_store`, and of `_dump`. -/
def storeUses (state : InstanceState) (key : CString) : List DumperUse :=
  match entryTableGetEntry state.entryTable key with
  | none => []
  | some entry => [.store key (storageRetrieve config state entry.number entry.size)]

/-- The calls of a turn of `instance_thread_dump`. -/
def dumpUses (state : InstanceState) : List DumperUse :=
  (entryTableGetKeyList state.entryTable).flatMap (storeUses config state)

/-- The calls of `dumper_recover`. -/
def recoverUses (dumper : Dumper) (keys : List CString) : List DumperUse :=
  (keys.filter (isListed dumper)).map .create

/-- The calls of the loop of `instance_recover`. -/
def recoverSetUses (recovered : SetResult) : List KeyValue → List DumperUse
  | [] => []
  | keyValue :: keyValues =>
      setUses config recovered.state keyValue recovered.replacedKeys ++
        recoverSetUses (instanceSet config recovered.state keyValue recovered.replacedKeys)
          keyValues

/-! ## What leaves the dumper alone -/

variable {config} {state : InstanceState} {keyValue : KeyValue}

theorem dumper_entryTableDelete (state : InstanceState) (keyValue : KeyValue) :
    (entryTableDelete config state keyValue).dumper = state.dumper := by
  obtain ⟨left, hframe⟩ := entryTableDelete_frame config state keyValue
  rw [hframe]

theorem dumper_entryTableDeleteFew (state : InstanceState) (keys : List CString) :
    (entryTableDeleteFew config state keys).dumper = state.dumper := by
  induction keys generalizing state with
  | nil => rfl
  | cons key keys ih =>
      rw [entryTableDeleteFew, List.foldl_cons, ← entryTableDeleteFew, ih,
        dumper_entryTableDelete]

theorem dumper_entryTableInsert (state : InstanceState) (nextEntry : ℕ) (keyValue : KeyValue) :
    (entryTableInsert config state nextEntry keyValue).dumper = state.dumper := by
  simp only [entryTableInsert]
  split
  · rfl
  · split <;> rfl

theorem dumper_storageSet {stored : InstanceState} {nextEntry size : ℕ} {value : List UInt8}
    (hstored : storageSet config state nextEntry value size = some stored) :
    stored.dumper = state.dumper := by
  simp only [storageSet] at hstored
  split at hstored
  · cases hstored
  · rw [← Option.some.inj hstored]

theorem dumper_instanceSetPlace (state : InstanceState) (keyValue : KeyValue) :
    (instanceSetPlace config state keyValue).1.dumper = state.dumper := by
  simp only [instanceSetPlace]
  split
  · split
    · exact dumper_entryTableDelete state keyValue
    · rfl
  · split
    · rfl
    · split
      · rfl
      · rename_i hstored
        exact (dumper_entryTableInsert _ _ _).trans (dumper_storageSet hstored)

theorem dumper_compactEntry (state : InstanceState) (entry : Entry) :
    (compactEntry config state entry).dumper = state.dumper := by
  have hdeleted : (entryTableDelete config state
      (keyValueGenerator entry.key entry.size)).dumper = state.dumper :=
    dumper_entryTableDelete state _
  simp only [compactEntry]
  split
  · exact hdeleted
  · rename_i nextEntry hnext
    cases hset : storageSet config _ nextEntry _ entry.size with
    | none => exact (dumper_entryTableInsert _ _ _).trans hdeleted
    | some stored =>
        exact (dumper_storageSet hset).trans ((dumper_entryTableInsert _ _ _).trans hdeleted)

theorem dumper_compactTurns (state : InstanceState) (turns : ℕ) :
    (compactTurns config state turns).dumper = state.dumper := by
  induction turns with
  | zero => rfl
  | succ turns ih =>
      rw [compactTurns, compactTurn]
      split
      · exact (dumper_compactEntry _ _).trans ih
      · exact ih

theorem dumper_compactationCompact (state : InstanceState) :
    (compactationCompact config state).dumper = state.dumper :=
  dumper_compactTurns state _

theorem dumper_algorithmsExec (algorithmId : AlgorithmId) (state : InstanceState)
    (entryTable : List ℕ) (keyValue : KeyValue) (replacedKeys : List CString) :
    (algorithmsExec config algorithmId state entryTable keyValue replacedKeys).state.dumper =
      state.dumper := by
  obtain ⟨evicted, hreplaces, -⟩ :=
    algorithmsExec_replaces config algorithmId state entryTable keyValue replacedKeys
  obtain ⟨table, pointer, hframe⟩ := hreplaces.frame
  rw [hframe]

/-! ## What the operations do to the dumper -/

/-- Removing some keys. -/
theorem foldl_dumperRemoveKeyValue (keys : List CString) (dumper : Dumper) :
    keys.foldl dumperRemoveKeyValue dumper = (keys.map .remove).foldl useDumper dumper := by
  rw [List.foldl_map]
  rfl

/-- The replacement step makes the calls, if it is reached. -/
theorem dumper_instanceSetReplace (state : InstanceState) (keyValue : KeyValue)
    (replacedKeys : List CString)
    (hfits : newValueFitsWithReplaced config state keyValue = true) :
    (instanceSetReplace config state keyValue replacedKeys).1.dumper =
      (setUses config state keyValue replacedKeys).foldl useDumper state.dumper := by
  simp only [instanceSetReplace, setUses, hfits, Bool.not_true, Bool.false_eq_true, if_false]
  by_cases hroom : entryTableHasEntries config state keyValue = true
  · simp only [hroom, Bool.not_true, Bool.false_eq_true, if_false, List.foldl_nil]
  · simp only [hroom, Bool.not_false, if_true]
    split
    · exact dumper_algorithmsExec _ _ _ _ _
    · rw [dumper_entryTableDeleteFew, dumper_algorithmsExec, foldl_dumperRemoveKeyValue]

theorem dumper_instanceSet (state : InstanceState) (keyValue : KeyValue)
    (replacedKeys : List CString) :
    (instanceSet config state keyValue replacedKeys).state.dumper =
      (setUses config state keyValue replacedKeys).foldl useDumper state.dumper := by
  by_cases hfits : newValueFitsWithReplaced config state keyValue = true
  · rw [← dumper_instanceSetReplace state keyValue replacedKeys hfits]
    simp only [instanceSet, hfits, Bool.not_true, Bool.false_eq_true, if_false]
    rcases hreplace : instanceSetReplace config state keyValue replacedKeys with
      ⟨replaced, keys, placed⟩
    cases placed with
    | false => rfl
    | true => exact dumper_instanceSetPlace replaced keyValue
  · simp only [instanceSet, setUses, hfits, Bool.not_false, if_true, List.foldl_nil]

theorem dumper_instanceStore (state : InstanceState) (key : CString) :
    (instanceStore config state key).1.dumper =
      (storeUses config state key).foldl useDumper state.dumper := by
  cases hget : entryTableGetEntry state.entryTable key with
  | none => simp only [instanceStore, storeUses, hget, List.foldl_nil]
  | some entry =>
      simp only [instanceStore, storeUses, hget, List.foldl_cons, List.foldl_nil, useDumper]

theorem dump_eq (state : InstanceState) (key : CString) :
    dump config state key =
      { state with dumper := (storeUses config state key).foldl useDumper state.dumper } := by
  cases hget : entryTableGetEntry state.entryTable key with
  | none => simp only [dump, storeUses, hget, List.foldl_nil]
  | some entry => simp only [dump, storeUses, hget, List.foldl_cons, List.foldl_nil, useDumper]

/-- A turn of the dump thread reads the same table and storage throughout. -/
theorem foldl_dump (state : InstanceState) (keys : List CString) :
    keys.foldl (dump config) state =
      { state with
        dumper := (keys.flatMap (storeUses config state)).foldl useDumper state.dumper } := by
  induction keys generalizing state with
  | nil => rfl
  | cons key keys ih =>
      have hsame : storeUses config (dump config state key) = storeUses config state := by
        rw [dump_eq]
        rfl
      rw [List.foldl_cons, ih, hsame, dump_eq, List.flatMap_cons, List.foldl_append]

theorem dumper_instanceThreadDump (state : InstanceState) :
    (instanceThreadDump config state).dumper =
      (dumpUses config state).foldl useDumper state.dumper := by
  rw [instanceThreadDump, foldl_dump]
  rfl

theorem dumper_dumperRecover (dumper : Dumper) (keys : List CString) :
    (dumperRecover dumper keys).1 = (recoverUses dumper keys).foldl useDumper dumper := by
  suffices hloop : ∀ (storedKeys : List CString) (recovered : Dumper × List KeyValue),
      (keys.foldl (recoverStep storedKeys) recovered).1 =
        ((keys.filter fun key => storedKeys.any (stringEqualsIgnoreCase key)).map
          .create).foldl useDumper recovered.1 from hloop _ _
  intro storedKeys
  induction keys with
  | nil => exact fun _ => rfl
  | cons key keys ih =>
      intro recovered
      rw [List.foldl_cons, ih]
      by_cases hlisted : storedKeys.any (stringEqualsIgnoreCase key) = true
      · rw [List.filter_cons_of_pos (by exact hlisted), recoverStep, if_pos hlisted]
        rfl
      · rw [List.filter_cons_of_neg (by exact hlisted), recoverStep, if_neg hlisted]

theorem dumper_instanceRecover (recovered : SetResult) (keyValues : List KeyValue) :
    (keyValues.foldl (fun recovered keyValue =>
      instanceSet config recovered.state keyValue recovered.replacedKeys) recovered).state.dumper =
      (recoverSetUses config recovered keyValues).foldl useDumper recovered.state.dumper := by
  induction keyValues generalizing recovered with
  | nil => rfl
  | cons keyValue keyValues ih =>
      rw [List.foldl_cons, ih, recoverSetUses, List.foldl_append, dumper_instanceSet]

/-! ## The turns of the threads -/

/-- Where the API thread is when it does not hold the mutex: it has not been started, it
waits for a request, or it has answered that it compacts for a value. -/
inductive Phase
  | starting
  | waiting
  | compacting (keyValue : KeyValue) (replacedKeys : List CString)
  deriving DecidableEq

variable (config)

/-- The `PROTOCOL_CI_SET` case of `instance_thread_api` up to the answer. -/
def beginSet (state : InstanceState) (request : SetRequest) : InstanceState × Phase :=
  let keyValue := request.keyValue
  if !(request.isNew || entryTableHasKey state.entryTable keyValue.key request.isNew) then
    (state, .waiting)
  else
    let first := instanceSet config state keyValue []
    if !request.sendOk then ({ first.state with instanceIsAlive := false }, .waiting)
    else
      match first.status with
      | .ok => (first.state, .waiting)
      | .compact => (first.state, .compacting keyValue first.replacedKeys)
      | _ => ({ first.state with instanceIsAlive := false }, .waiting)

/-- The rest of the case, after the answer `STATUS_COMPACT`. -/
def compactAndSet (state : InstanceState) (keyValue : KeyValue) (replacedKeys : List CString) :
    SetResult :=
  instanceSet config (compactationCompact config state) keyValue replacedKeys

/-- The calls of `beginSet`. -/
def beginSetUses (state : InstanceState) (request : SetRequest) : List DumperUse :=
  if !(request.isNew || entryTableHasKey state.entryTable request.keyValue.key request.isNew)
  then []
  else setUses config state request.keyValue []

variable {config} in
theorem dumper_beginSet (state : InstanceState) (request : SetRequest) :
    (beginSet config state request).1.dumper =
      (beginSetUses config state request).foldl useDumper state.dumper := by
  simp only [beginSet, beginSetUses]
  split
  · rfl
  · rw [← dumper_instanceSet]
    split
    · rfl
    · split <;> rfl

/-- What a thread does from taking the mutex to releasing it, with the calls of the dumper
that account for what happens to the dumper. -/
structure Turn (state : InstanceState) where
  next : InstanceState
  phase : Phase
  uses : List DumperUse
  dumper_eq : next.dumper = uses.foldl useDumper state.dumper

/-- `instance_recover`, in `instance_init`. -/
def recoverTurn (state : InstanceState) (keys : List CString) : Turn state where
  next := (instanceRecover config { state with dumper := (dumperRecover state.dumper keys).1 }
    (dumperRecover state.dumper keys).2).state
  phase := .waiting
  uses := recoverUses state.dumper keys ++ recoverSetUses config
    { state := { state with dumper := (dumperRecover state.dumper keys).1 }
      replacedKeys := []
      status := .ok } (dumperRecover state.dumper keys).2
  dumper_eq := by
    rw [instanceRecover, dumper_instanceRecover, List.foldl_append, dumper_dumperRecover]

/-- A turn of `instance_thread_dump`. -/
def dumpTurn (state : InstanceState) (phase : Phase) : Turn state where
  next := instanceThreadDump config state
  phase := phase
  uses := dumpUses config state
  dumper_eq := dumper_instanceThreadDump state

/-- The rest of a SET that compacts. -/
def compactAndSetTurn (state : InstanceState) (keyValue : KeyValue)
    (replacedKeys : List CString) : Turn state where
  next := (compactAndSet config state keyValue replacedKeys).state
  phase := .waiting
  uses := setUses config (compactationCompact config state) keyValue replacedKeys
  dumper_eq := by rw [compactAndSet, dumper_instanceSet, dumper_compactationCompact]

/-- A request, up to the answer of a SET. -/
def requestTurn (state : InstanceState) : Request → Turn state
  | .set request =>
      { next := (beginSet config state request).1
        phase := (beginSet config state request).2
        uses := beginSetUses config state request
        dumper_eq := dumper_beginSet state request }
  | .store key sendOk =>
      { next := { (instanceStore config state key).1 with instanceIsAlive := sendOk }
        phase := .waiting
        uses := storeUses config state key
        dumper_eq := dumper_instanceStore state key }
  | .compact =>
      { next := compactationCompact config state
        phase := .waiting
        uses := []
        dumper_eq := dumper_compactationCompact state }
  | .requestValue _ sendOk =>
      { next := { state with instanceIsAlive := sendOk }
        phase := .waiting
        uses := []
        dumper_eq := rfl }
  | .isAlive => { next := state, phase := .waiting, uses := [], dumper_eq := rfl }
  | .kill =>
      { next := { state with instanceIsAlive := false }
        phase := .waiting
        uses := []
        dumper_eq := rfl }
  | .dump => dumpTurn config state .waiting

/-! ## Runs -/

/-- What takes a turn: the main thread, which recovers some keys, the API thread with a
request or with the rest of a SET, or the dump thread. -/
inductive ThreadEvent
  | recover (keys : List CString)
  | request (request : Request)
  | compactAndSet
  deriving DecidableEq

/-- An instance with the calls of the dumper that have led from a dumper to its own. -/
structure FiledInstance (start : Dumper) where
  state : InstanceState
  phase : Phase
  uses : List DumperUse
  dumper_eq : state.dumper = (tracedDumper start uses).dumper

variable {start : Dumper}

/-- After a turn. -/
def FiledInstance.after (filed : FiledInstance start) (turn : Turn filed.state) :
    FiledInstance start where
  state := turn.next
  phase := turn.phase
  uses := filed.uses ++ turn.uses
  dumper_eq := by
    rw [turn.dumper_eq, filed.dumper_eq, tracedDumper_dumper, tracedDumper_dumper,
      List.foldl_append]

/-- The turn that an event takes. The dump thread runs once the instance has been started,
and does not look whether the instance is alive after it has slept. -/
def takeTurn (filed : FiledInstance start) (event : ThreadEvent) : Option (Turn filed.state) :=
  match filed.phase, event with
  | .starting, .recover keys => some (recoverTurn config filed.state keys)
  | .starting, _ => none
  | phase, .request .dump => some (dumpTurn config filed.state phase)
  | .waiting, .request request =>
      if filed.state.instanceIsAlive then some (requestTurn config filed.state request) else none
  | .compacting keyValue replacedKeys, .compactAndSet =>
      some (compactAndSetTurn config filed.state keyValue replacedKeys)
  | _, _ => none

/-- The step function of the threads. -/
def filedStep : PartialStep (FiledInstance start) ThreadEvent := fun filed event =>
  (takeTurn config filed event).map filed.after

/-- `instance_init` up to the recovery, with a dumper that has been started. -/
def freshFiled (started : StartedDumper) : FiledInstance started.dumper where
  state := { instanceInit config started.dumper.mountPoint with dumper := started.dumper }
  phase := .starting
  uses := []
  dumper_eq := rfl

variable {config}

/-- The state once a compaction that a turn has left open is done. -/
def Turn.finished (config : Config) {state : InstanceState} (turn : Turn state) : InstanceState :=
  match turn.phase with
  | .compacting keyValue replacedKeys =>
      (compactAndSet config turn.next keyValue replacedKeys).state
  | _ => turn.next

/-- The two parts of a SET are the whole. -/
theorem finished_requestTurn_set (state : InstanceState) (request : SetRequest) :
    (requestTurn config state (.set request)).finished config =
      (instanceThreadApiSet config state request).state := by
  cases hknown : request.isNew ||
      entryTableHasKey state.entryTable request.keyValue.key request.isNew with
  | false =>
      simp only [requestTurn, Turn.finished, instanceThreadApiSet, beginSet, hknown, Bool.not_false,
        if_true]
  | true =>
      cases hsend : request.sendOk with
      | false =>
          simp only [requestTurn, Turn.finished, instanceThreadApiSet, beginSet, hknown, hsend,
            Bool.not_true, Bool.not_false, Bool.false_eq_true, if_false, if_true]
      | true =>
          cases hstatus : (instanceSet config state request.keyValue []).status <;>
            simp only [requestTurn, Turn.finished, instanceThreadApiSet, beginSet, compactAndSet,
              hknown, hsend, hstatus, Bool.not_true, Bool.false_eq_true, if_false]

/-- A request leaves the instance started. -/
theorem phase_requestTurn_ne (state : InstanceState) (request : Request) :
    (requestTurn config state request).phase ≠ .starting := by
  cases request with
  | set request =>
      simp only [requestTurn, beginSet]
      split
      · exact Phase.noConfusion
      · split
        · exact Phase.noConfusion
        · split <;> exact Phase.noConfusion
  | _ => exact Phase.noConfusion

/-- A request that is handled at once is its turns one after the other. -/
theorem map_handleRequest {state : InstanceState} (request : Request)
    (halive : state.instanceIsAlive = true) :
    (handleRequest config state request).map Prod.fst =
      some ((requestTurn config state request).finished config) := by
  simp only [handleRequest, halive, Bool.not_true, Bool.false_eq_true, if_false]
  cases request with
  | set request => exact congrArg some (finished_requestTurn_set state request).symm
  | store key sendOk => rfl
  | compact => rfl
  | requestValue key sendOk => rfl
  | isAlive => rfl
  | kill => rfl
  | dump => rfl

theorem takeTurn_request {filed : FiledInstance start} (request : Request)
    (hphase : filed.phase = .waiting) (halive : filed.state.instanceIsAlive = true) :
    takeTurn config filed (.request request) =
      some (requestTurn config filed.state request) := by
  cases request with
  | dump => simp only [takeTurn, hphase, requestTurn]
  | _ => simp only [takeTurn, hphase, halive, if_true]

/-- One request is one turn or two. -/
theorem exists_runs_of_instanceStep {traced next : TracedInstance} {request : Request}
    (hstep : instanceStep config traced request = some next) {filed : FiledInstance start}
    (hstate : filed.state = traced.state) (hphase : filed.phase = .waiting) :
    ∃ (events : List ThreadEvent) (finish : FiledInstance start),
      (filedStep config).FreeRuns filed events finish ∧ finish.state = next.state ∧
        finish.phase = .waiting := by
  obtain ⟨⟨handled, calls⟩, hhandle, rfl⟩ := Option.map_eq_some_iff.mp hstep
  have halive : traced.state.instanceIsAlive = true := by
    by_contra hdead
    simp [handleRequest, hdead] at hhandle
  rw [← hstate] at hhandle halive
  have hfinished : handled = (requestTurn config filed.state request).finished config := by
    have hmap : (handleRequest config filed.state request).map Prod.fst = _ :=
      map_handleRequest request halive
    rw [hhandle] at hmap
    exact Option.some.inj hmap
  have hfirst : filedStep config filed (.request request) =
      some (filed.after (requestTurn config filed.state request)) := by
    rw [filedStep, takeTurn_request request hphase halive, Option.map_some]
  cases hafter : (requestTurn config filed.state request).phase with
  | compacting keyValue replacedKeys =>
      have hsecond : filedStep config (filed.after (requestTurn config filed.state request))
          .compactAndSet = some ((filed.after (requestTurn config filed.state request)).after
            (compactAndSetTurn config _ keyValue replacedKeys)) := by
        simp only [filedStep, takeTurn, FiledInstance.after, hafter, Option.map_some]
      refine ⟨_, _, .head trivial hfirst (.single trivial hsecond), Eq.trans ?_ hfinished.symm, rfl⟩
      rw [Turn.finished, hafter]
      rfl
  | starting => exact absurd hafter (phase_requestTurn_ne _ _)
  | waiting =>
      refine ⟨_, _, .single trivial hfirst, Eq.trans ?_ hfinished.symm, hafter⟩
      rw [Turn.finished, hafter]
      rfl

/-- Some requests are some turns. -/
theorem exists_runs_of_instanceRuns {traced finish : TracedInstance} {requests : List Request}
    (hrun : (instanceStep config).FreeRuns traced requests finish) {filed : FiledInstance start}
    (hstate : filed.state = traced.state) (hphase : filed.phase = .waiting) :
    ∃ (events : List ThreadEvent) (reached : FiledInstance start),
      (filedStep config).FreeRuns filed events reached ∧ reached.state = finish.state ∧
        reached.phase = .waiting := by
  induction hrun generalizing filed with
  | refl traced => exact ⟨[], filed, .refl filed, hstate, hphase⟩
  | head _ hstep _ ih =>
      obtain ⟨first, middle, hfirst, hmiddle, hwaiting⟩ :=
        exists_runs_of_instanceStep hstep hstate hphase
      obtain ⟨rest, reached, hrest, hreached⟩ := ih hmiddle hwaiting
      exact ⟨first ++ rest, reached, hfirst.append hrest, hreached⟩

/-- **Simulation.** What an instance reaches that handles every request at once, its threads
reach. -/
theorem exists_filedRuns_of_reachable {mountPoint : CString} {state : InstanceState}
    (hreach : InstanceReachable config mountPoint state) :
    ∃ (events : List ThreadEvent) (filed : FiledInstance (startedDumper mountPoint).dumper),
      (filedStep config).FreeRuns (freshFiled config (startedDumper mountPoint)) events filed ∧
        filed.state = state := by
  obtain ⟨calls, requests, hrun⟩ := hreach
  -- There is nothing to recover.
  obtain ⟨started, hstarted, hstate, hphase⟩ : ∃ started,
      filedStep config (freshFiled config (startedDumper mountPoint)) (.recover []) =
        some started ∧
      started.state = (freshInstance config mountPoint).state ∧ started.phase = .waiting :=
    ⟨_, rfl, rfl, rfl⟩
  obtain ⟨events, filed, hfiled, hreached, -⟩ := exists_runs_of_instanceRuns hrun hstate hphase
  exact ⟨.recover [] :: events, filed, .head trivial hstarted hfiled, hreached⟩

variable (config)

/-- Every key that a turn removes from the dumper has been stored, or recovered, since it
was last removed. -/
def evictsStored (filed : FiledInstance start) (event : ThreadEvent) : Bool :=
  (takeTurn config filed event).all fun turn => removesStored filed.uses turn.uses

variable {config}

/-- **The run lemma.** After a run all removals are of stored keys exactly when they were
before it and are at every turn. -/
theorem removesStored_iff_runs {filed finish : FiledInstance start} {events : List ThreadEvent}
    (hrun : (filedStep config).FreeRuns filed events finish) :
    removesStored [] finish.uses = true ↔ removesStored [] filed.uses = true ∧
      (filedStep config).Runs (fun filed event => evictsStored config filed event = true)
        filed events finish := by
  induction hrun with
  | refl filed => exact ⟨fun hstored => ⟨hstored, .refl filed⟩, And.left⟩
  | @head filed next finish event events _ hstep _ ih =>
      obtain ⟨turn, hturn, rfl⟩ := Option.map_eq_some_iff.mp hstep
      have hevicts : evictsStored config filed event = removesStored filed.uses turn.uses := by
        rw [evictsStored, hturn]
        rfl
      have hafter : removesStored [] (filed.after turn).uses =
          (removesStored [] filed.uses && removesStored filed.uses turn.uses) :=
        removesStored_append [] filed.uses turn.uses
      rw [ih, PartialStep.runs_cons_iff, hafter, hevicts, Bool.and_eq_true]
      constructor
      · rintro ⟨⟨hbefore, hturn⟩, hrest⟩
        exact ⟨hbefore, hturn, filed.after turn, hstep, hrest⟩
      · rintro ⟨hbefore, hturn, next, hnext, hrest⟩
        rw [hstep] at hnext
        rw [← Option.some.inj hnext] at hrest
        exact ⟨⟨hbefore, hturn⟩, hrest⟩

/-- **Evictions and own files.** A run closes and refers to own files only, exactly when
at every turn the keys that are removed have been stored since they were last removed. -/
theorem ownFiles_iff_evictsStored {started : StartedDumper} {events : List ThreadEvent}
    {finish : FiledInstance started.dumper}
    (hrun : (filedStep config).FreeRuns (freshFiled config started) events finish) :
    OwnFiles started.dumper finish.uses ↔
      (filedStep config).Runs (fun filed event => evictsStored config filed event = true)
        (freshFiled config started) events finish := by
  rw [ownFiles_iff_removesStored, removesStored_iff_runs hrun]
  exact and_iff_right rfl

/-- The keys `a`, `b` and `c` are dumped and make place for `d` and `e`, which are dumped,
and `f` makes the instance compact, with a dump before the compaction. -/
def dumpedEvictions : List ThreadEvent :=
  [.recover [], .request (.set ⟨true, literal [97], literal [120], literal_x_ne, true⟩),
    .request (.set ⟨true, literal [98], literal [120], literal_x_ne, true⟩),
    .request (.set ⟨true, literal [99], literal [120], literal_x_ne, true⟩), .request .dump,
    .request (.set ⟨true, literal [100], literal [120], literal_x_ne, true⟩),
    .request (.set ⟨true, literal [101], literal [120], literal_x_ne, true⟩), .request .dump,
    .request (.set ⟨true, literal [102], literal [120, 121], by decide, true⟩), .request .dump,
    .compactAndSet]

/-- Four keys are evicted in that run, and only own files are closed. -/
theorem ownFiles_dumpedEvictions :
    ∃ finish : FiledInstance (startedDumper []).dumper,
      (filedStep threeEntries).FreeRuns (freshFiled threeEntries (startedDumper []))
        dumpedEvictions finish ∧
      finish.uses.filter (fun use => use matches .remove _) =
        [.remove (literal [97]), .remove (literal [98]), .remove (literal [99]),
          .remove (literal [100])] ∧
      OwnFiles (startedDumper []).dumper finish.uses := by
  obtain ⟨finish, hrun, hcheck⟩ := PartialStep.exists_run_of_execute
    ((filedStep threeEntries).guarded (evictsStored threeEntries))
    (freshFiled threeEntries (startedDumper [])) dumpedEvictions
    (fun filed => decide (filed.uses.filter (fun use => use matches .remove _) =
      [.remove (literal [97]), .remove (literal [98]), .remove (literal [99]),
        .remove (literal [100])])) (by decide +kernel)
  have hguarded := PartialStep.runs_of_guarded hrun
  have hfree := hguarded.mono fun _ _ _ => trivial
  exact ⟨finish, hfree, of_decide_eq_true hcheck, (ownFiles_iff_evictsStored hfree).mpr hguarded⟩

/-- `a` is evicted before it has been stored, which closes the descriptor `0`; the store of
`d` opens it again, and the eviction of `b` closes it again, under `d`. -/
theorem not_ownFiles : ¬ ∀ (config : Config) (started : StartedDumper)
    (events : List ThreadEvent) (finish : FiledInstance started.dumper),
      (filedStep config).FreeRuns (freshFiled config started) events finish →
        OwnFiles started.dumper finish.uses := by
  intro hclaim
  obtain ⟨finish, hrun, hcheck⟩ := PartialStep.exists_run_of_execute
    (filedStep threeEntries) (freshFiled threeEntries (startedDumper []))
    ([.recover [], .request (.set ⟨true, literal [97], literal [120], by decide, true⟩),
      .request (.set ⟨true, literal [98], literal [120], by decide, true⟩),
      .request (.set ⟨true, literal [99], literal [120], by decide, true⟩),
      .request (.set ⟨true, literal [100], literal [120], by decide, true⟩),
      .request (.store (literal [100]) true),
      .request (.set ⟨true, literal [101], literal [120], by decide, true⟩)])
    (fun filed =>
      decide (dictionaryGet filed.state.dumper.fileDictionary (literal [100]) = some 0) &&
        decide (dictionaryGet filed.state.dumper.descriptors 0 = none)) (by decide +kernel)
  rw [Bool.and_eq_true, decide_eq_true_eq, decide_eq_true_eq] at hcheck
  have hrefers := (hclaim _ _ _ finish hrun).refers finish.uses [] (List.append_nil _).symm
  rw [← finish.dumper_eq] at hrefers
  obtain ⟨file, hopen, -⟩ := hrefers _ _ hcheck.1
  rw [hcheck.2] at hopen
  cases hopen

end SockMyPort.Instancia
