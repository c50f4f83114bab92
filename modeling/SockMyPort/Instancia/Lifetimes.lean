/-
# The lifetimes of an instance

An instance is killed between two turns of its threads or in the middle of one, and a new
process is started on the directory that it leaves. Its store is followed over all of its
lifetimes: the memory is lost, and the files are what the operations of all processes have
left on disk.
-/

import SockMyPort.Instancia.TurnStore

namespace SockMyPort.Instancia

open SockMyPort.Commons Library

variable {config : Config}

/-! ## Processes -/

/-- A process of an instance, with what it and those before it have done to the store. -/
structure InstanceProcess where
  start : Dumper
  filed : FiledInstance start
  operations : List Operation

/-- The store of an instance, over all of its processes. -/
abbrev InstanceProcess.store (process : InstanceProcess) : InstanceStore :=
  WriteBack.empty.applyAll process.operations

/-- What happens to an instance: a thread takes a turn, or the process is killed and a new
one is started. A kill in the middle of a turn lets only some calls of the dumper be made,
and may cut the next one off. -/
inductive LifeEvent
  | thread (event : ThreadEvent)
  | restart
  | restartDuring (event : ThreadEvent) (calls : ℕ) (cut : Option Cut)
  deriving DecidableEq

/-- Whether a new process is started. -/
def LifeEvent.restarts : LifeEvent → Bool
  | .thread _ => false
  | .restart | .restartDuring _ _ _ => true

variable (config)

/-- `instance_init` up to the recovery, on a dumper that has just been started. -/
def initFiled (start : Dumper) : FiledInstance start where
  state := { instanceInit config start.mountPoint with dumper := start }
  phase := .starting
  uses := []
  dumper_eq := rfl

/-- The first process, on an empty directory. -/
def firstProcess (mountPoint : CString) : InstanceProcess where
  start := dumperInit mountPoint
  filed := initFiled config (dumperInit mountPoint)
  operations := []

/-- What an event means. -/
def lifeOperations (process : InstanceProcess) : LifeEvent → List Operation
  | .thread event => turnOperations config process.filed event
  | .restart => [.restart]
  | .restartDuring event calls cut =>
      (match takeTurn config process.filed event with
        | some turn => cutOperations cut turn.uses calls
        | none => []) ++ [.restart]

/-- A new process on the directory and the files that a dumper leaves. -/
def newProcess (left : Dumper) (operations : List Operation) : InstanceProcess where
  start := dumperRestart left
  filed := initFiled config (dumperRestart left)
  operations := operations

/-- One event. -/
def lifeStep : PartialStep InstanceProcess LifeEvent := fun process event =>
  let operations := process.operations ++ lifeOperations config process event
  match event with
  | .thread turning => (takeTurn config process.filed turning).map fun turn =>
      { start := process.start
        filed := process.filed.after turn
        operations := operations }
  | .restart => some (newProcess config process.filed.state.dumper operations)
  | .restartDuring turning calls cut => (takeTurn config process.filed turning).map fun turn =>
      newProcess config (cutUses cut process.filed.state.dumper turn.uses calls) operations

/-- A key whose file is in the directory itself. -/
def namesFile (key : CString) : Bool := key.all fun char => char.val ≠ 47

/-- What is removed from the dumper has been stored, the keys that are set name files of the
directory, and what is recovered has a file of its own. -/
def keepsTurn (process : InstanceProcess) (event : ThreadEvent) : Bool :=
  evictsStored config process.filed event &&
    match event with
    | .recover keys => recoversOwn process.filed.state.dumper keys
    | .request (.set request) => namesFile request.keyValue.key
    | _ => true

/-- The same, also for a turn in which the process is killed. -/
def keepsFiles (process : InstanceProcess) : LifeEvent → Bool
  | .thread event | .restartDuring event _ _ => keepsTurn config process event
  | .restart => true

/-- A key as it can be stored. -/
def IsFileKey (key : CString) : Prop := key.length ≤ 40 ∧ namesFile key = true

/-- An instance represents its store. -/
structure Represents (process : InstanceProcess) : Prop where
  started : ∃ started : StartedDumper, started.dumper = process.start
  stored : removesStored [] process.filed.uses = true
  inv : InstanceInvariant config process.filed.state
  memory : Remembers config process.filed.state process.store
  disk : HoldsFiles process.filed.state.dumper process.store.disk
  keyed : process.store.Keyed IsFileKey
  waiting : ∀ keyValue replacedKeys, process.filed.phase = .compacting keyValue replacedKeys →
    IsFileKey keyValue.key
  fits : FitsPhase config process.filed.state process.filed.phase

variable {config}

theorem store_lifeStep {process next : InstanceProcess} {event : LifeEvent}
    (hstep : lifeStep config process event = some next) :
    next.store = process.store.applyAll (lifeOperations config process event) := by
  have happend : next.operations = process.operations ++ lifeOperations config process event := by
    cases event with
    | restart =>
        obtain rfl := Option.some.inj hstep
        rfl
    | thread turning | restartDuring turning calls cut =>
        obtain ⟨turn, -, rfl⟩ := Option.map_eq_some_iff.mp hstep
        rfl
  rw [InstanceProcess.store, happend, WriteBack.applyAll_append]

theorem fitsPhase_init (start : Dumper) :
    FitsPhase config (initFiled config start).state .starting := by
  refine ⟨fun key => rfl, fun status hmem hatomic => ?_⟩
  have hstatuses : (initFiled config start).state.entryTableStatusGlobal =
      originalEntryTableMigrationToEntryTableStatus config [] := rfl
  rw [hstatuses, originalEntryTableMigrationToEntryTableStatus,
    migrateFrom_nil _ _ (Nat.zero_add _)] at hmem
  rw [(List.mem_replicate.mp hmem).2] at hatomic
  cases hatomic

theorem represents_firstProcess (mountPoint : CString) :
    Represents config (firstProcess config mountPoint) where
  started := ⟨startedDumper mountPoint, rfl⟩
  stored := rfl
  inv := (instanceInit_invariant mountPoint).congr rfl rfl rfl rfl
  memory _ := rfl
  disk := holdsFiles_dumperInit mountPoint
  keyed := WriteBack.keyed_empty _
  waiting _ _ hphase := by cases hphase
  fits := fitsPhase_init _

/-! ## What is set -/

section Puts

variable {process next : InstanceProcess} {key value : CString}

theorem put_not_mem_operations {use : DumperUse} : .put key value ∉ use.operations := by
  cases use <;> simp [DumperUse.operations]

/-- A call of `instance_set` puts its own value, if any. -/
theorem mem_setOperations {state : InstanceState} {keyValue : KeyValue}
    {replacedKeys : List CString} {placed : Operation}
    (hmem : .put key value ∈ setOperations config state keyValue replacedKeys placed) :
    .put key value = placed := by
  obtain hmem | hmem := List.mem_append.mp hmem
  · obtain ⟨use, -, hmem⟩ := List.mem_flatMap.mp hmem
    exact absurd hmem put_not_mem_operations
  · cases hstatus : (instanceSet config state keyValue replacedKeys).status <;>
      simp only [hstatus, StatusCi.operations, List.mem_singleton, List.not_mem_nil,
        reduceCtorEq] at hmem
    exact hmem

/-- The loop of the recovery puts no value of its own. -/
theorem put_not_mem_recoverOperations {recovered : SetResult} {keyValues : List KeyValue} :
    .put key value ∉ recoverOperations config recovered keyValues := by
  induction keyValues generalizing recovered with
  | nil => exact List.not_mem_nil
  | cons keyValue keyValues ih =>
      intro hmem
      obtain hmem | hmem := List.mem_append.mp hmem
      · cases mem_setOperations hmem
      · exact ih hmem

/-- Neither does what a kill leaves of a turn. -/
theorem put_not_mem_cutOperations {cut : Option Cut} {uses : List DumperUse} {calls : ℕ} :
    .put key value ∉ cutOperations cut uses calls := by
  induction uses generalizing calls with
  | nil => exact List.not_mem_nil
  | cons use uses ih =>
      cases calls with
      | zero => cases use <;> cases cut <;> simp [cutOperations, DumperUse.cutOperations]
      | succ calls =>
          intro hmem
          obtain hmem | hmem := List.mem_append.mp hmem
          · exact put_not_mem_operations hmem
          · exact ih hmem

/-- What an event puts is the value of its SET, or the one that waits. -/
theorem put_mem_lifeOperations {event : LifeEvent}
    (hmem : .put key value ∈ lifeOperations config process event) :
    (∃ request, event = .thread (.request (.set request)) ∧ key = request.keyValue.key ∧
        value = request.keyValue.value) ∨
      ∃ keyValue replacedKeys, process.filed.phase = .compacting keyValue replacedKeys ∧
        key = keyValue.key ∧ value = keyValue.value := by
  cases event with
  | restart => cases List.mem_singleton.mp hmem
  | restartDuring event calls cut =>
      obtain hmem | hmem := List.mem_append.mp hmem
      · split at hmem
        · exact absurd hmem put_not_mem_cutOperations
        · cases hmem
      · cases List.mem_singleton.mp hmem
  | thread event =>
      cases event with
      | recover keys => exact absurd hmem put_not_mem_recoverOperations
      | request request =>
          cases request with
          | set request =>
              simp only [lifeOperations, turnOperations, requestOperations] at hmem
              split at hmem
              · cases hmem
              · obtain ⟨rfl, rfl⟩ := StoreOperation.put.inj (mem_setOperations hmem)
                exact .inl ⟨request, rfl, rfl, rfl⟩
          | store key sendOk => cases List.mem_singleton.mp hmem
          | dump => cases List.mem_singleton.mp hmem
          | compact => cases hmem
          | requestValue key sendOk => cases hmem
          | isAlive => cases hmem
          | kill => cases hmem
      | compactAndSet =>
          simp only [lifeOperations, turnOperations] at hmem
          split at hmem
          · rename_i keyValue replacedKeys hphase
            obtain ⟨rfl, rfl⟩ := StoreOperation.put.inj (mem_setOperations hmem)
            exact .inr ⟨keyValue, replacedKeys, hphase, rfl, rfl⟩
          · cases hmem

/-- A value comes to wait by its SET. -/
theorem phase_of_lifeStep {event : LifeEvent} {keyValue : KeyValue}
    {replacedKeys : List CString} (hstep : lifeStep config process event = some next)
    (hphase : next.filed.phase = .compacting keyValue replacedKeys) :
    (∃ request, event = .thread (.request (.set request)) ∧ keyValue = request.keyValue) ∨
      process.filed.phase = .compacting keyValue replacedKeys := by
  cases event with
  | restart =>
      obtain rfl := Option.some.inj hstep
      cases hphase
  | restartDuring event calls cut =>
      obtain ⟨turn, -, rfl⟩ := Option.map_eq_some_iff.mp hstep
      cases hphase
  | thread event =>
      obtain ⟨turn, hturn, rfl⟩ := Option.map_eq_some_iff.mp hstep
      have hafter : turn.phase = .compacting keyValue replacedKeys := hphase
      simp only [takeTurn] at hturn
      split at hturn
      · obtain rfl := Option.some.inj hturn
        cases hafter
      · cases hturn
      · obtain rfl := Option.some.inj hturn
        exact .inr hafter
      · rename_i request _ _
        split at hturn
        · obtain rfl := Option.some.inj hturn
          cases request with
          | set request =>
              simp only [requestTurn, beginSet] at hafter
              split at hafter
              · cases hafter
              · split at hafter
                · cases hafter
                · split at hafter
                  · cases hafter
                  · exact .inl ⟨request, rfl, (Phase.compacting.inj hafter).1.symm⟩
                  · cases hafter
          | _ => cases hafter
        · cases hturn
      · obtain rfl := Option.some.inj hturn
        cases hafter
      · cases hturn

end Puts

/-! ## The step -/

namespace Represents

variable {process : InstanceProcess}

/-- A turn means its operations. -/
theorem turnMeans (h : Represents config process) {event : ThreadEvent}
    (hkeeps : keepsTurn config process event = true) {turn : Turn process.filed.state}
    (hturn : takeTurn config process.filed event = some turn) :
    TurnMeans config turn process.store (turnOperations config process.filed event) := by
  refine turnMeans_takeTurn h.inv h.memory h.fits hturn fun keys hevent hphase => ?_
  have hfits := h.fits
  rw [hphase] at hfits
  subst hevent
  exact turnMeans_recoverTurn h.inv h.memory h.disk (fun key hkey => (h.keyed key hkey).1) hfits
    ((Bool.and_eq_true _ _).mp hkeeps).2

/-- What a turn removes from the dumper has been stored. -/
theorem removesStored_turn (h : Represents config process) {event : ThreadEvent}
    (hkeeps : keepsTurn config process event = true) {turn : Turn process.filed.state}
    (hturn : takeTurn config process.filed event = some turn) :
    removesStored [] (process.filed.uses ++ turn.uses) = true := by
  have hevicts := ((Bool.and_eq_true _ _).mp hkeeps).1
  rw [evictsStored, hturn, Option.all_some] at hevicts
  rw [removesStored_append, h.stored, List.nil_append, hevicts]
  rfl

/-- The keys of an event that is kept. -/
theorem keyed_step (h : Represents config process) {event : LifeEvent} {next : InstanceProcess}
    (hkeeps : keepsFiles config process event = true)
    (hstep : lifeStep config process event = some next) :
    next.store.Keyed IsFileKey ∧
      ∀ keyValue replacedKeys, next.filed.phase = .compacting keyValue replacedKeys →
        IsFileKey keyValue.key := by
  have hset : ∀ request : SetRequest, event = .thread (.request (.set request)) →
      IsFileKey request.keyValue.key := by
    rintro request rfl
    exact ⟨request.keyValue.key_short, ((Bool.and_eq_true _ _).mp hkeeps).2⟩
  constructor
  · rw [store_lifeStep hstep]
    refine h.keyed.applyAll fun key value hmem => ?_
    obtain ⟨request, hevent, rfl, -⟩ | ⟨keyValue, replacedKeys, hphase, rfl, -⟩ :=
      put_mem_lifeOperations hmem
    · exact hset request hevent
    · exact h.waiting keyValue replacedKeys hphase
  · intro keyValue replacedKeys hphase
    obtain ⟨request, hevent, rfl⟩ | hbefore := phase_of_lifeStep hstep hphase
    · exact hset request hevent
    · exact h.waiting keyValue replacedKeys hbefore

/-- A new process on what a dumper leaves. -/
theorem newProcess {left : Dumper} {operations : List Operation}
    (hleft : HoldsFiles left (newProcess config left operations).store.disk)
    (hmemory : ∀ key, (Instancia.newProcess config left operations).store.memory key = none)
    (hkeyed : (Instancia.newProcess config left operations).store.Keyed IsFileKey) :
    Represents config (Instancia.newProcess config left operations) where
  started := ⟨.restart hleft.filed.filesApart, rfl⟩
  stored := rfl
  inv := (instanceInit_invariant left.mountPoint).congr rfl rfl rfl rfl
  memory key := by rw [hmemory key]; rfl
  disk := hleft.of_descriptors _ _
  keyed := hkeyed
  waiting _ _ hphase := by cases hphase
  fits := fitsPhase_init _

/-- **The step lemma.** -/
theorem step (h : Represents config process) {event : LifeEvent} {next : InstanceProcess}
    (hkeeps : keepsFiles config process event = true)
    (hstep : lifeStep config process event = some next) : Represents config next := by
  have hstore := store_lifeStep hstep
  obtain ⟨hkeyed, hwaiting⟩ := h.keyed_step hkeeps hstep
  cases event with
  | thread event =>
      obtain ⟨turn, hturn, rfl⟩ := Option.map_eq_some_iff.mp hstep
      have hmeans := h.turnMeans hkeeps hturn
      have hstored := h.removesStored_turn hkeeps hturn
      obtain ⟨start, filed, operations⟩ := process
      obtain ⟨started, rfl⟩ := h.started
      refine ⟨⟨started, rfl⟩, hstored, hmeans.inv, ?_, ?_, hkeyed, hwaiting, hmeans.fits⟩
      · rw [hstore]
        exact hmeans.memory
      · have hholds := h.disk
        rw [filed.dumper_eq] at hholds
        rw [hstore, (filed.after turn).dumper_eq]
        exact hmeans.disk ▸ holds_foldl_persistUse started hstored hholds
  | restart =>
      obtain rfl := Option.some.inj hstep
      refine .newProcess ?_ (fun key => ?_) hkeyed
      · rw [hstore]
        exact h.disk
      · rw [hstore]
        rfl
  | restartDuring event calls cut =>
      obtain ⟨turn, hturn, rfl⟩ := Option.map_eq_some_iff.mp hstep
      have hcopying := (h.turnMeans hkeeps hturn).copying
      have hstored := h.removesStored_turn hkeeps hturn
      have hoperations : lifeOperations config process (.restartDuring event calls cut) =
          cutOperations cut turn.uses calls ++ [.restart] := by
        simp only [lifeOperations, hturn]
      refine .newProcess ?_ (fun key => ?_) hkeyed
      · rw [hstore, hoperations, WriteBack.applyAll_append]
        show HoldsFiles _ (process.store.applyAll _).disk
        rw [disk_cutOperations hcopying]
        have hholds := h.disk
        obtain ⟨start, filed, operations⟩ := process
        obtain ⟨started, rfl⟩ := h.started
        show HoldsFiles (cutUses cut filed.state.dumper turn.uses calls) _
        rw [filed.dumper_eq] at hholds ⊢
        exact holds_cutUses started hstored hholds calls cut
      · rw [hstore, hoperations, WriteBack.applyAll_append]
        rfl

/-- What is read in memory. -/
theorem instanceStatus_eq (h : Represents config process) (key : CString) :
    instanceStatus config process.filed.state key =
      (process.store.memory key).map (keyValueCreate key) := by
  rw [instanceStatus_eq_contents, h.memory key, Option.map_map]
  congr 1
  funext value
  simp

end Represents

/-! ## Runs -/

variable {mountPoint : CString} {events : List LifeEvent} {finish : InstanceProcess}

theorem represents_of_runs
    (hrun : (lifeStep config).Runs (fun process event => keepsFiles config process event = true)
      (firstProcess config mountPoint) events finish) : Represents config finish :=
  hrun.invariant _ (fun h hkeeps hstep => h.step hkeeps hstep) (represents_firstProcess mountPoint)

/-- **The instance refines its store**, over all of its lifetimes and wherever it is killed:
the status of a key is its value in memory, its file has what the store has on disk, and only
keys that name a file of the directory have one. -/
theorem status_and_file_of_lifetimes
    (hrun : (lifeStep config).Runs (fun process event => keepsFiles config process event = true)
      (firstProcess config mountPoint) events finish) (key : CString) :
    instanceStatus config finish.filed.state key =
        (finish.store.memory key).map (keyValueCreate key) ∧
      fileOf finish.filed.state.dumper key = finish.store.disk key ∧
      ((finish.store.disk key).isSome = true → IsFileKey key) :=
  ⟨(represents_of_runs hrun).instanceStatus_eq key, (represents_of_runs hrun).disk.value key,
    fun hsome => (represents_of_runs hrun).keyed key (.inr hsome)⟩

/-- `a` and `b` are set and `a` is stored, the process is killed and recovers `a`, which is
set to a longer value. The next process is killed while it stores that value, and `a` is
recovered once more. -/
def restartedTwice : List LifeEvent :=
  [.thread (.recover []),
    .thread (.request (.set ⟨true, literal [97], literal [120], literal_x_ne, true⟩)),
    .thread (.request (.set ⟨true, literal [98], literal [120], literal_x_ne, true⟩)),
    .thread (.request (.store (literal [97]) true)), .restart,
    .thread (.recover [literal [97], literal [98]]),
    .thread (.request (.set ⟨false, literal [97], literal [121, 122], by decide, true⟩)),
    .restartDuring (.request .dump) 0 (some (.resized [1])),
    .thread (.recover [literal [97]])]

/-- `a` is recovered with a byte of each value, and `b` is lost. -/
theorem status_and_file_restartedTwice :
    ∃ finish, (lifeStep threeEntries).Runs
        (fun process event => keepsFiles threeEntries process event = true)
        (firstProcess threeEntries (literal [47])) restartedTwice finish ∧
      instanceStatus threeEntries finish.filed.state (literal [97]) =
        some (keyValueCreate (literal [97]) (literal [120, 122])) ∧
      fileOf finish.filed.state.dumper (literal [98]) = none := by
  obtain ⟨finish, hrun, hcheck⟩ := PartialStep.exists_run_of_execute
    ((lifeStep threeEntries).guarded (keepsFiles threeEntries))
    (firstProcess threeEntries (literal [47])) restartedTwice (fun process =>
      decide (process.store.memory (literal [97]) = some (literal [120, 122])) &&
        decide (process.store.disk (literal [98]) = none)) (by decide +kernel)
  have hguarded := PartialStep.runs_of_guarded hrun
  rw [Bool.and_eq_true, decide_eq_true_eq, decide_eq_true_eq] at hcheck
  obtain ⟨hstatus, -⟩ := status_and_file_of_lifetimes hguarded (literal [97])
  obtain ⟨-, hfile, -⟩ := status_and_file_of_lifetimes hguarded (literal [98])
  refine ⟨finish, hguarded, ?_, ?_⟩
  · rw [hstatus, hcheck.1]
    rfl
  · rw [hfile, hcheck.2]

end SockMyPort.Instancia
