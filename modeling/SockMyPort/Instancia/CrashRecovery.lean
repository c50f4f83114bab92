/-
# What survives a crash

The store of an instance says what is left of a value when the process is killed: what
has been dumped is recovered, what has been stored stays until it is set again or evicted,
and nothing is recovered that has not been set.
-/

import SockMyPort.Instancia.Lifetimes

namespace SockMyPort.Instancia

open SockMyPort.Commons Library

variable {config : Config} {process finish : InstanceProcess} {mountPoint : CString}

/-- A run in which files are kept. -/
abbrev KeptRuns (config : Config) :
    InstanceProcess → List LifeEvent → InstanceProcess → Prop :=
  (lifeStep config).Runs fun process event => keepsFiles config process event = true

/-! ## Recovering all keys -/

/-- Values that fit behind recovered ones remove nothing from the dumper. -/
theorem Recovered.loop {before : List KeyValue} {result : SetResult}
    (h : Recovered config before result) (keyValues : List KeyValue)
    (hkeys : ((before ++ keyValues).map KeyValue.key).Nodup)
    (hvalues : ∀ keyValue ∈ keyValues, keyValue.value ≠ [])
    (hroom : slotsOf config (before ++ keyValues) ≤ config.totalEntries) :
    recoverSetUses config result keyValues = [] ∧
      Recovered config (before ++ keyValues)
        (keyValues.foldl (fun recovered keyValue =>
          instanceSet config recovered.state keyValue recovered.replacedKeys) result) := by
  induction keyValues generalizing before result with
  | nil => exact ⟨rfl, by rwa [List.append_nil]⟩
  | cons keyValue keyValues ih =>
      rw [List.append_cons] at hkeys hroom ⊢
      have hfresh : keyValue.key ∉ before.map KeyValue.key := by
        rw [List.map_append, List.map_append] at hkeys
        exact fun hmem => List.disjoint_of_nodup_append hkeys.of_append_left hmem
          (List.mem_singleton_self _)
      have hnow : slotsOf config (before ++ [keyValue]) ≤ config.totalEntries := by
        simp only [slotsOf, List.map_append, List.sum_append] at hroom ⊢
        omega
      obtain ⟨-, hset⟩ := h.set keyValue hfresh (hvalues keyValue List.mem_cons_self) hnow
      obtain ⟨huses, hrecovered⟩ :=
        ih hset hkeys (fun other hmem => hvalues other (List.mem_cons_of_mem _ hmem)) hroom
      refine ⟨?_, hrecovered⟩
      have hnone : setUses config result.state keyValue result.replacedKeys = [] := by
        obtain ⟨hnone, -⟩ | hremoves :=
          setUses_cases config result.state keyValue result.replacedKeys
        · exact hnone
        · rw [hremoves, hset.replacedKeys, List.map_nil]
      rw [recoverSetUses, hnone, huses, List.append_nil]

/-- What a recovery is to set for some keys. -/
def persistedValues (files : CString → Option (List UInt8)) (keys : List CString) :
    List KeyValue :=
  keys.map fun key => keyValueCreate key (readFile files key)

/-- Opening files removes nothing. -/
theorem removesStored_create (uses : List DumperUse) (keys : List CString) :
    removesStored uses (keys.map .create) = true := by
  induction keys generalizing uses with
  | nil => rfl
  | cons key keys ih => exact ih _

theorem map_key_persistedValues {files : CString → Option (List UInt8)} {keys : List CString}
    (hshort : ∀ key ∈ keys, key.length ≤ 40) :
    (persistedValues files keys).map KeyValue.key = keys := by
  rw [persistedValues, List.map_map]
  exact (List.map_congr_left fun key hmem => keyValueCreate_key (hshort key hmem)).trans
    (List.map_id _)

/-- What is read after distinct keys have been recovered that fit together. -/
theorem Recovered.instanceStatus_eq {files : CString → Option (List UInt8)}
    {keys : List CString} (hshort : ∀ key ∈ keys, key.length ≤ 40) {result : SetResult}
    (h : Recovered config (persistedValues files keys) result) (key : CString) :
    instanceStatus config result.state key =
      if key ∈ keys then some (keyValueCreate key (readFile files key)) else none := by
  rw [instanceStatus_eq_contents]
  by_cases hmem : key ∈ keys
  · have hcontents := h.contents _ (List.mem_map_of_mem hmem)
    rw [keyValueCreate_key (hshort key hmem), keyValueCreate_value] at hcontents
    rw [if_pos hmem, hcontents, Option.map_some, stringOf_bytesOf_append_zero]
  · have habsent : Instancia.contents config result.state key = none := by
      rw [Instancia.contents, Option.map_eq_none_iff, entryTableGetEntry_eq_none_iff, h.table]
      intro hentry
      obtain ⟨entry, hentry, hkey⟩ := List.mem_map.mp hentry
      have hfound := mem_keys_packedValues hentry
      rw [hkey, map_key_persistedValues hshort] at hfound
      exact hmem hfound
    rw [if_neg hmem, habsent, Option.map_none]

/-- The recovery of a new process. -/
theorem recoverTurn_initFiled (config : Config) {start : Dumper} {keys : List CString}
    {keyValues : List KeyValue}
    (hvalues : (dumperRecover start keys).2 = keyValues) :
    let fresh : InstanceState :=
      { instanceInit config start.mountPoint with dumper := (dumperRecover start keys).1 }
    let turn := recoverTurn config (initFiled config start).state keys
    turn.uses = recoverUses start keys ++
        recoverSetUses config { state := fresh, replacedKeys := [], status := .ok } keyValues ∧
      turn.next = (instanceRecover config fresh keyValues).state := by
  subst hvalues
  exact ⟨rfl, rfl⟩

/-- **A restart with a recovery** of distinct keys that have values on disk, which fit
together. -/
theorem Represents.exists_recovered (h : Represents config process) {keys : List CString}
    (hkeys : keys.Nodup) (hstored : ∀ key ∈ keys, key ≠ [] ∧ ∃ content,
      process.store.disk key = some content ∧ messengerBytesToString content ≠ [])
    (hroom : slotsOf config (persistedValues process.store.disk keys) ≤ config.totalEntries) :
    ∃ reached, KeptRuns config process [.restart, .thread (.recover keys)] reached ∧
      ∀ key, instanceStatus config reached.filed.state key =
        if key ∈ keys then some (keyValueCreate key (readFile process.store.disk key))
        else none := by
  have hsome : ∀ key ∈ keys, (process.store.disk key).isSome = true := fun key hmem => by
    obtain ⟨-, content, hcontent, -⟩ := hstored key hmem
    rw [hcontent]
    rfl
  have hshort : ∀ key ∈ keys, key.length ≤ 40 := fun key hmem =>
    (h.keyed key (.inr (hsome key hmem))).1
  have hvalue : ∀ key ∈ keys, readFile process.store.disk key ≠ [] := fun key hmem => by
    obtain ⟨-, content, hcontent, hne⟩ := hstored key hmem
    rwa [readFile, hcontent, Option.getD_some]
  set dumper := dumperRestart process.filed.state.dumper with hdumper
  have hholds : HoldsFiles dumper process.store.disk := h.disk.of_descriptors _ _
  have hlisted : keys.filter (isListed dumper) = keys :=
    List.filter_eq_self.mpr fun key hmem =>
      (hholds.isListed_of_isSome (hsome key hmem)).mpr (hstored key hmem).1
  have hvalues : (dumperRecover dumper keys).2 = persistedValues process.store.disk keys := by
    rw [dumperRecover_eq hholds, hlisted]
    rfl
  have hinit : Recovered config [] _ :=
    Recovered.init dumper.mountPoint (dumperRecover dumper keys).1
  obtain ⟨huses, hrecovered⟩ :=
    hinit.loop (persistedValues process.store.disk keys)
      (by rw [List.nil_append, map_key_persistedValues hshort]; exact hkeys)
      (fun keyValue hmem => by
        obtain ⟨key, hkey, rfl⟩ := List.mem_map.mp hmem
        exact hvalue key hkey)
      hroom
  obtain ⟨hturn, hnext⟩ := recoverTurn_initFiled config hvalues
  refine ⟨_, .head rfl rfl (.single ?_ rfl), fun key => ?_⟩
  · rw [keepsFiles, keepsTurn, Bool.and_eq_true]
    refine ⟨?_, (recoversOwn_iff hholds).mpr ⟨hkeys, fun key hmem _ => (hstored key hmem).2⟩⟩
    show removesStored [] (recoverTurn config (initFiled config dumper).state keys).uses = true
    rw [hturn, huses, List.append_nil]
    exact removesStored_create [] _
  · rw [← hrecovered.instanceStatus_eq hshort]
    show instanceStatus config (recoverTurn config (initFiled config dumper).state keys).next key =
      _
    rw [hnext]
    rfl

/-! ## A dump before the crash -/

/-- A value in memory is not empty. -/
theorem value_ne_nil_of_remembers {state : InstanceState} {store : InstanceStore}
    (inv : InstanceInvariant config state) (hremembers : Remembers config state store)
    {key value : CString} (hvalue : store.memory key = some value) : value ≠ [] := by
  have hcontents := hremembers key
  rw [hvalue, Option.map_some, contents] at hcontents
  obtain ⟨entry, hget, hbytes⟩ := Option.map_eq_some_iff.mp hcontents
  have hmem := mem_of_getEntry hget
  have hlength : (storageRetrieve config state entry.number entry.size).length = entry.size :=
    length_readCells (inv.bytes_inside hmem)
  have hpos := inv.table.nonempty entry hmem
  rintro rfl
  rw [hbytes] at hlength
  have hzero : (0 : ℕ) = entry.size := hlength
  omega

/-- What distinct keys have in memory fits together, also on disk. -/
theorem slotsOf_persistedValues_le {state : InstanceState} {store : InstanceStore}
    (inv : InstanceInvariant config state) (hremembers : Remembers config state store)
    {files : CString → Option (List UInt8)} {keys : List CString} (hkeys : keys.Nodup)
    (hstored : ∀ key ∈ keys, ∃ value, store.memory key = some value ∧
      files key = some (bytesOf value)) :
    slotsOf config (persistedValues files keys) ≤ config.totalEntries := by
  have hentry : ∀ key ∈ keys, ∃ entry, entryTableGetEntry state.entryTable key = some entry ∧
      reqEntries config (readFile files key).length ≤ entry.slots config := by
    intro key hmem
    obtain ⟨value, hvalue, hpersisted⟩ := hstored key hmem
    have hcontents := hremembers key
    rw [hvalue, Option.map_some, contents] at hcontents
    obtain ⟨entry, hget, hbytes⟩ := Option.map_eq_some_iff.mp hcontents
    refine ⟨entry, hget, reqEntries_le_iff.mpr ?_⟩
    have hlength : (readFile files key).length ≤ entry.size := by
      rw [readFile, hpersisted, Option.getD_some, messengerBytesToString_bytesOf,
        ← length_bytesOf, ← hbytes]
      exact List.length_take_le _ _
    exact hlength.trans (le_reqEntries_mul config entry.size)
  -- The entries of the keys are some of the table.
  have hperm :
      ((state.entryTable.filter fun entry => entry.key ∈ keys).map Entry.key).Perm keys := by
    refine (List.perm_ext_iff_of_nodup ?_ hkeys).mpr fun key => ⟨fun hmem => ?_, fun hmem => ?_⟩
    · exact inv.table.keysDistinct.sublist (List.filter_sublist.map _)
    · obtain ⟨entry, hentry, rfl⟩ := List.mem_map.mp hmem
      exact of_decide_eq_true (List.mem_filter.mp hentry).2
    · obtain ⟨entry, hget, -⟩ := hentry key hmem
      refine List.mem_map.mpr ⟨entry, List.mem_filter.mpr ⟨mem_of_getEntry hget, ?_⟩,
        key_of_getEntry hget⟩
      rw [key_of_getEntry hget]
      exact decide_eq_true hmem
  calc slotsOf config (persistedValues files keys)
      = (keys.map fun key => reqEntries config (readFile files key).length).sum := by
        rw [slotsOf, persistedValues, List.map_map]
        rfl
    _ = ((state.entryTable.filter fun entry => entry.key ∈ keys).map fun entry =>
          reqEntries config (readFile files entry.key).length).sum := by
        rw [← (hperm.map _).sum_eq, List.map_map]
        rfl
    _ ≤ occupied (Entry.slots config) (state.entryTable.filter fun entry => entry.key ∈ keys) := by
        refine occupied_le_occupied fun entry hmem => ?_
        obtain ⟨htable, hkey⟩ := List.mem_filter.mp hmem
        obtain ⟨found, hget, hle⟩ := hentry entry.key (of_decide_eq_true hkey)
        rw [(inv.table.getEntry_eq_some_iff entry.key entry).mpr ⟨htable, rfl⟩] at hget
        exact Option.some.inj hget ▸ hle
    _ ≤ occupied (Entry.slots config) state.entryTable :=
        occupied_le_of_sublist List.filter_sublist
    _ ≤ config.totalEntries := inv.table.occupied_le

/-- Stores remove nothing. -/
theorem removesStored_of_stores {stores : List DumperUse} (uses : List DumperUse)
    (hall : ∀ use ∈ stores, ∃ key data, use = .store key data) :
    removesStored uses stores = true := by
  induction stores generalizing uses with
  | nil => rfl
  | cons use stores ih =>
      obtain ⟨key, data, rfl⟩ := hall _ List.mem_cons_self
      exact ih _ fun other hmem => hall other (List.mem_cons_of_mem _ hmem)

theorem exists_of_mem_storeUses {state : InstanceState} {key : CString} {use : DumperUse}
    (hmem : use ∈ storeUses config state key) : ∃ key data, use = .store key data := by
  simp only [storeUses] at hmem
  split at hmem
  · cases hmem
  · exact ⟨_, _, List.mem_singleton.mp hmem⟩

/-- **What is dumped is recovered**: after a turn of the dump thread the process can be
killed, and any stored keys that the next process recovers have the status that they had. -/
theorem exists_recovered_of_dump {events : List LifeEvent}
    (hrun : KeptRuns config (firstProcess config mountPoint) events finish)
    (hstarted : finish.filed.phase ≠ .starting) (keys : List CString) (hkeys : keys.Nodup)
    (hstored : ∀ key ∈ keys,
      key ≠ [] ∧ (instanceStatus config finish.filed.state key).isSome = true) :
    ∃ reached, KeptRuns config finish
        [.thread (.request .dump), .restart, .thread (.recover keys)] reached ∧
      ∀ key, instanceStatus config reached.filed.state key =
        if key ∈ keys then instanceStatus config finish.filed.state key else none := by
  have h := represents_of_runs hrun
  have hturn : takeTurn config finish.filed (.request .dump) =
      some (dumpTurn config finish.filed.state finish.filed.phase) := by
    cases hphase : finish.filed.phase with
    | starting => exact absurd hphase hstarted
    | waiting => simp only [takeTurn, hphase]
    | compacting keyValue replacedKeys => simp only [takeTurn, hphase]
  have hkeeps : keepsFiles config finish (.thread (.request .dump)) = true := by
    refine (Bool.and_eq_true _ _).mpr ⟨?_, rfl⟩
    rw [evictsStored, hturn, Option.all_some]
    refine removesStored_of_stores _ fun use hmem => ?_
    obtain ⟨key, -, hmem⟩ := List.mem_flatMap.mp hmem
    exact exists_of_mem_storeUses hmem
  obtain ⟨dumped, hdump⟩ : ∃ dumped,
      lifeStep config finish (.thread (.request .dump)) = some dumped := by
    simp only [lifeStep, hturn, Option.map_some]
    exact ⟨_, rfl⟩
  have hafter := h.step hkeeps hdump
  have hdisk : ∀ key, dumped.store.disk key =
      ((finish.store.memory key).map bytesOf).or (finish.store.disk key) := by
    intro key
    rw [store_lifeStep hdump]
    rfl
  have hvalue : ∀ key ∈ keys, ∃ value, finish.store.memory key = some value ∧
      dumped.store.disk key = some (bytesOf value) := by
    intro key hmem
    have hsome := (hstored key hmem).2
    rw [h.instanceStatus_eq, Option.isSome_map] at hsome
    obtain ⟨value, hvalue⟩ := Option.isSome_iff_exists.mp hsome
    exact ⟨value, hvalue, by rw [hdisk, hvalue, Option.map_some, Option.some_or]⟩
  obtain ⟨reached, hreached, hstatus⟩ := hafter.exists_recovered hkeys
    (fun key hmem => ⟨(hstored key hmem).1, by
      obtain ⟨value, hmemory, hpersisted⟩ := hvalue key hmem
      refine ⟨_, hpersisted, ?_⟩
      rw [messengerBytesToString_bytesOf]
      exact value_ne_nil_of_remembers h.inv h.memory hmemory⟩)
    (slotsOf_persistedValues_le h.inv h.memory hkeys hvalue)
  refine ⟨reached, .head hkeeps hdump hreached, fun key => ?_⟩
  rw [hstatus]
  by_cases hmem : key ∈ keys
  · obtain ⟨value, hmemory, hpersisted⟩ := hvalue key hmem
    rw [if_pos hmem, if_pos hmem, h.instanceStatus_eq, hmemory, readFile, hpersisted,
      Option.getD_some, messengerBytesToString_bytesOf, Option.map_some]
  · rw [if_neg hmem, if_neg hmem]

/-- After the run with the evictions the two keys that are left survive a crash. -/
theorem recovered_dumpedEvictions : ∃ finish reached,
    KeptRuns threeEntries (firstProcess threeEntries (literal [47]))
        (dumpedEvictions.map .thread) finish ∧
    KeptRuns threeEntries finish [.thread (.request .dump), .restart,
      .thread (.recover [literal [102], literal [101]])] reached ∧
    instanceStatus threeEntries reached.filed.state (literal [102]) =
      some (keyValueCreate (literal [102]) (literal [120, 121])) := by
  obtain ⟨finish, hrun, hcheck⟩ := PartialStep.exists_run_of_execute
    ((lifeStep threeEntries).guarded (keepsFiles threeEntries))
    (firstProcess threeEntries (literal [47])) (dumpedEvictions.map .thread)
    (fun process => decide (process.filed.phase = .waiting) &&
      decide (instanceStatus threeEntries process.filed.state (literal [101]) =
        some (keyValueCreate (literal [101]) (literal [120]))) &&
      decide (instanceStatus threeEntries process.filed.state (literal [102]) =
        some (keyValueCreate (literal [102]) (literal [120, 121])))) (by decide +kernel)
  simp only [Bool.and_eq_true, decide_eq_true_eq] at hcheck
  obtain ⟨⟨hphase, hfirst⟩, hsecond⟩ := hcheck
  have hguarded := PartialStep.runs_of_guarded hrun
  obtain ⟨reached, hreached, hstatus⟩ := exists_recovered_of_dump hguarded
    (by rw [hphase]; exact Phase.noConfusion) [literal [102], literal [101]] (by decide)
    (by
      intro key hmem
      rcases List.mem_cons.mp hmem with rfl | hmem
      · exact ⟨by decide, by rw [hsecond]; rfl⟩
      · rw [List.mem_singleton.mp hmem]
        exact ⟨by decide, by rw [hfirst]; rfl⟩)
  exact ⟨finish, reached, hguarded, hreached, by rw [hstatus, if_pos (by decide), hsecond]⟩

/-! ## Stored values -/

/-- An event that neither sets a key nor evicts it. -/
def sparesKey (config : Config) (key : CString) (process : InstanceProcess)
    (event : LifeEvent) : Bool :=
  (lifeOperations config process event).all fun operation =>
    decide (WriteBack.Spares key operation)

/-- The store keeps a value that is settled. -/
theorem settled_of_runs {key value : CString} {events : List LifeEvent}
    (hrun : (lifeStep config).Runs
      (fun process event => sparesKey config key process event = true) process events finish)
    (hsettled : WriteBack.Settled key value process.store) :
    WriteBack.Settled key value finish.store := by
  refine hrun.invariant (fun process => WriteBack.Settled key value process.store)
    (fun hsettled hspares hstep => ?_) hsettled
  rw [store_lifeStep hstep]
  exact hsettled.applyAll fun operation hmem =>
    of_decide_eq_true (List.all_eq_true.mp hspares operation hmem)

theorem uses_of_takeTurn_store {start : Dumper} {filed : FiledInstance start} {key : CString}
    {sendOk : Bool} {turn : Turn filed.state}
    (hturn : takeTurn config filed (.request (.store key sendOk)) = some turn) :
    turn.uses = storeUses config filed.state key := by
  cases hphase : filed.phase with
  | waiting =>
      simp only [takeTurn, hphase] at hturn
      split at hturn
      · obtain rfl := Option.some.inj hturn
        rfl
      · cases hturn
  | starting => simp [takeTurn, hphase] at hturn
  | compacting keyValue replacedKeys => simp [takeTurn, hphase] at hturn

/-- A STORE removes nothing. -/
theorem keepsFiles_store {key : CString} {sendOk : Bool} {stored : InstanceProcess}
    (hstore : lifeStep config process (.thread (.request (.store key sendOk))) = some stored) :
    keepsFiles config process (.thread (.request (.store key sendOk))) = true := by
  obtain ⟨turn, hturn, -⟩ := Option.map_eq_some_iff.mp hstore
  refine (Bool.and_eq_true _ _).mpr ⟨?_, rfl⟩
  rw [evictsStored, hturn, Option.all_some, uses_of_takeTurn_store hturn]
  exact removesStored_of_stores _ fun use hmem => exists_of_mem_storeUses hmem

/-- **What is stored stays**: after a STORE the file of the key has its value, over any
number of kills at any point, until the key is set again or evicted, and a process can
recover it. -/
theorem stored_of_runs {key : CString} {keyValue : KeyValue} {sendOk : Bool}
    {stored : InstanceProcess} {events later : List LifeEvent}
    (hrun : KeptRuns config (firstProcess config mountPoint) events process)
    (hstatus : instanceStatus config process.filed.state key = some keyValue)
    (hstore : lifeStep config process (.thread (.request (.store key sendOk))) = some stored)
    (hlater : (lifeStep config).Runs (fun process event =>
      (keepsFiles config process event && sparesKey config key process event) = true)
      stored later finish) :
    fileOf finish.filed.state.dumper key = some (bytesOf keyValue.value) ∧
      (∀ other, instanceStatus config finish.filed.state key = some other → other = keyValue) ∧
      (key ≠ [] → ∃ reached,
        KeptRuns config finish [.restart, .thread (.recover [key])] reached ∧
        instanceStatus config reached.filed.state key = some keyValue) := by
  have h := represents_of_runs hrun
  rw [h.instanceStatus_eq] at hstatus
  obtain ⟨value, hvalue, rfl⟩ := Option.map_eq_some_iff.mp hstatus
  have hkeeps := keepsFiles_store hstore
  have hsettled : WriteBack.Settled key value finish.store := by
    refine settled_of_runs (hlater.mono fun _ _ hboth => ((Bool.and_eq_true _ _).mp hboth).2) ?_
    rw [store_lifeStep hstore]
    exact WriteBack.settled_store hvalue
  have hfinish : Represents config finish :=
    (hlater.mono fun _ _ hboth => ((Bool.and_eq_true _ _).mp hboth).1).invariant _
      (fun h hkeeps hstep => h.step hkeeps hstep) (h.step hkeeps hstore)
  refine ⟨?_, fun other hother => ?_, fun hne => ?_⟩
  · rw [hfinish.disk.value, hsettled.disk]
    rfl
  · rw [hfinish.instanceStatus_eq] at hother
    obtain ⟨found, hfound, rfl⟩ := Option.map_eq_some_iff.mp hother
    rw [hsettled.memory found hfound]
  · obtain ⟨reached, hreached, hrecovered⟩ := hfinish.exists_recovered
      (List.nodup_singleton key)
      (fun other hmem => by
        rw [List.mem_singleton.mp hmem]
        refine ⟨hne, _, hsettled.disk, ?_⟩
        rw [show DiskFormat.encode value = bytesOf value from rfl, messengerBytesToString_bytesOf]
        exact value_ne_nil_of_remembers h.inv h.memory hvalue)
      (slotsOf_persistedValues_le h.inv h.memory (List.nodup_singleton key) fun other hmem => by
        rw [List.mem_singleton.mp hmem]
        exact ⟨value, hvalue, hsettled.disk⟩)
    refine ⟨reached, hreached, ?_⟩
    have hread : readFile finish.store.disk key = value := by
      rw [readFile, hsettled.disk]
      exact messengerBytesToString_bytesOf value
    rw [hrecovered, if_pos (List.mem_singleton_self key), hread]

/-- Behind the STORE of `a`: `b` is set, the process is killed while it dumps `a`, and the next
one is killed too. -/
theorem stored_twiceKilled : ∃ process stored finish,
    KeptRuns threeEntries (firstProcess threeEntries (literal [47]))
      [.thread (.recover []),
        .thread (.request (.set ⟨true, literal [97], literal [120], literal_x_ne, true⟩))]
      process ∧
    lifeStep threeEntries process (.thread (.request (.store (literal [97]) true))) =
      some stored ∧
    KeptRuns threeEntries stored
      [.thread (.request (.set ⟨true, literal [98], literal [120], literal_x_ne, true⟩)),
        .restartDuring (.request .dump) 0 (some (.resized [])), .thread (.recover []),
        .restart] finish ∧
    fileOf finish.filed.state.dumper (literal [97]) = some (bytesOf (literal [120])) := by
  obtain ⟨process, hrun, hcheck⟩ := PartialStep.exists_run_of_execute
    ((lifeStep threeEntries).guarded (keepsFiles threeEntries))
    (firstProcess threeEntries (literal [47]))
    [.thread (.recover []),
      .thread (.request (.set ⟨true, literal [97], literal [120], literal_x_ne, true⟩))]
    (fun process =>
      decide (instanceStatus threeEntries process.filed.state (literal [97]) =
        some (keyValueCreate (literal [97]) (literal [120]))) &&
      ((lifeStep threeEntries process (.thread (.request (.store (literal [97]) true)))).any
        fun stored => (lifeStep threeEntries).allows (fun process event =>
          keepsFiles threeEntries process event &&
            sparesKey threeEntries (literal [97]) process event) stored
          [.thread (.request (.set ⟨true, literal [98], literal [120], literal_x_ne, true⟩)),
            .restartDuring (.request .dump) 0 (some (.resized [])), .thread (.recover []),
            .restart])) (by decide +kernel)
  rw [Bool.and_eq_true, decide_eq_true_eq] at hcheck
  obtain ⟨hstatus, hlater⟩ := hcheck
  obtain ⟨stored, hstore, hallows⟩ := (Option.any_eq_true _ _).mp hlater
  obtain ⟨finish, hexec⟩ := Option.isSome_iff_exists.mp hallows
  have hguarded := PartialStep.runs_of_guarded hrun
  have hrest := PartialStep.runs_of_guarded (PartialStep.runs_of_execute hexec)
  exact ⟨process, stored, finish, hguarded, hstore,
    hrest.mono fun _ _ hboth => ((Bool.and_eq_true _ _).mp hboth).1,
    (stored_of_runs hguarded hstatus hstore hrest).1⟩

/-! ## Where values come from -/

/-- The values of a key, also the one that waits for a compaction, satisfy a property. -/
structure AllAsked (key : CString) (asked : CString → Prop) (process : InstanceProcess) :
    Prop where
  store : process.store.Among key asked
  waiting : ∀ keyValue replacedKeys, process.filed.phase = .compacting keyValue replacedKeys →
    keyValue.key = key → asked keyValue.value

/-- An event that does not cut off a write of a key. -/
def tearsOthers (config : Config) (key : CString) (process : InstanceProcess)
    (event : LifeEvent) : Bool :=
  (lifeOperations config process event).all fun operation =>
    match operation with
    | .tear other _ => other ≠ key
    | _ => true

theorem AllAsked.step {key : CString} {asked : CString → Prop} (h : AllAsked key asked process)
    {event : LifeEvent} {next : InstanceProcess}
    (hasked : ∀ request, event = .thread (.request (.set request)) →
      request.keyValue.key = key → asked request.keyValue.value)
    (htears : tearsOthers config key process event = true)
    (hstep : lifeStep config process event = some next) : AllAsked key asked next := by
  refine ⟨?_, fun keyValue replacedKeys hphase hkey => ?_⟩
  · rw [store_lifeStep hstep]
    refine h.store.applyAll fun operation hmem => ?_
    cases operation with
    | put other value =>
        rintro rfl
        obtain ⟨request, hevent, hkey, rfl⟩ | ⟨keyValue, replacedKeys, hphase, hkey, rfl⟩ :=
          put_mem_lifeOperations hmem
        · exact hasked request hevent hkey.symm
        · exact h.waiting keyValue replacedKeys hphase hkey.symm
    | tear other cut =>
        have hother : decide (other ≠ key) = true := List.all_eq_true.mp htears _ hmem
        have hne : other ≠ key := of_decide_eq_true hother
        exact hne
    | drop | evict | store | dump | restart | recover => trivial
  · obtain ⟨request, hevent, rfl⟩ | hbefore := phase_of_lifeStep hstep hphase
    · exact hasked request hevent hkey
    · exact h.waiting keyValue replacedKeys hbefore hkey

theorem allAsked_of_runs {key : CString} {asked : CString → Prop} {events : List LifeEvent}
    (hrun : (lifeStep config).Runs
      (fun process event => tearsOthers config key process event = true)
      (firstProcess config mountPoint) events finish)
    (hasked : ∀ request, .thread (.request (.set request)) ∈ events →
      request.keyValue.key = key → asked request.keyValue.value) : AllAsked key asked finish := by
  have hfirst : AllAsked key asked (firstProcess config mountPoint) :=
    ⟨WriteBack.among_empty key asked, fun keyValue replacedKeys hphase => by cases hphase⟩
  generalize firstProcess config mountPoint = start at hrun hfirst
  induction hrun with
  | refl => exact hfirst
  | head htears hstep _ ih =>
      refine ih (fun request hmem => hasked request (List.mem_cons_of_mem _ hmem)) ?_
      exact hfirst.step (fun request hevent => hasked request (hevent ▸ List.mem_cons_self))
        htears hstep

/-- **Nothing is made up**: what is read for a key, and what its file has, was the value of
a SET of that key, unless a kill has cut off a write of it. -/
theorem set_of_status_or_file {key : CString} {events : List LifeEvent}
    (hrun : (lifeStep config).Runs (fun process event =>
      (keepsFiles config process event && tearsOthers config key process event) = true)
      (firstProcess config mountPoint) events finish) :
    (∀ keyValue, instanceStatus config finish.filed.state key = some keyValue →
      ∃ request, .thread (.request (.set request)) ∈ events ∧ request.keyValue = keyValue) ∧
    ∀ bytes, fileOf finish.filed.state.dumper key = some bytes →
      ∃ request, .thread (.request (.set request)) ∈ events ∧ request.keyValue.key = key ∧
        bytes = bytesOf request.keyValue.value := by
  have h := represents_of_runs
    (hrun.mono fun _ _ hboth => ((Bool.and_eq_true _ _).mp hboth).1)
  have hasked : AllAsked key (fun value => ∃ request,
      .thread (.request (.set request)) ∈ events ∧ request.keyValue.key = key ∧
        request.keyValue.value = value) finish :=
    allAsked_of_runs (hrun.mono fun _ _ hboth => ((Bool.and_eq_true _ _).mp hboth).2)
      fun request hmem hkey => ⟨request, hmem, hkey, rfl⟩
  refine ⟨fun keyValue hstatus => ?_, fun bytes hfile => ?_⟩
  · rw [h.instanceStatus_eq] at hstatus
    obtain ⟨value, hvalue, rfl⟩ := Option.map_eq_some_iff.mp hstatus
    obtain ⟨request, hmem, rfl, rfl⟩ := hasked.store.memory value hvalue
    exact ⟨request, hmem, (keyValueCreate_self _).symm⟩
  · rw [h.disk.value] at hfile
    obtain ⟨value, ⟨request, hmem, hkey, rfl⟩, rfl⟩ := hasked.store.disk bytes hfile
    exact ⟨request, hmem, hkey, rfl⟩

/-- `b` is set and its write is cut off, `a` is set, stored and recovered. -/
def tornBeside : List LifeEvent :=
  [.thread (.recover []),
    .thread (.request (.set ⟨true, literal [98], literal [120], literal_x_ne, true⟩)),
    .restartDuring (.request .dump) 0 (some .opened), .thread (.recover []),
    .thread (.request (.set ⟨true, literal [97], literal [120], literal_x_ne, true⟩)),
    .thread (.request (.store (literal [97]) true)), .restart,
    .thread (.recover [literal [97]])]

/-- What `a` has at the end of that run was set. -/
theorem set_tornBeside : ∃ finish,
    (lifeStep threeEntries).Runs (fun process event =>
      (keepsFiles threeEntries process event &&
        tearsOthers threeEntries (literal [97]) process event) = true)
      (firstProcess threeEntries (literal [47])) tornBeside finish ∧
    ∃ request, .thread (.request (.set request)) ∈ tornBeside ∧
      request.keyValue = keyValueCreate (literal [97]) (literal [120]) := by
  obtain ⟨finish, hrun, hcheck⟩ := PartialStep.exists_run_of_execute
    ((lifeStep threeEntries).guarded fun process event => keepsFiles threeEntries process event &&
      tearsOthers threeEntries (literal [97]) process event)
    (firstProcess threeEntries (literal [47])) tornBeside
    (fun process => decide (instanceStatus threeEntries process.filed.state (literal [97]) =
      some (keyValueCreate (literal [97]) (literal [120])))) (by decide +kernel)
  have hguarded := PartialStep.runs_of_guarded hrun
  exact ⟨finish, hguarded, (set_of_status_or_file hguarded).1 _ (of_decide_eq_true hcheck)⟩

end SockMyPort.Instancia
