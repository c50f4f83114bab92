/-
# What is stored stays

When an instance has answered a STORE with success, the value that was set last is in the
file of the key. It stays there while nothing is asked about the key and the instance does
not evict it, whatever else happens in the coordinator, however often the instance is started
again. The key table goes on assigning the key to it, so that it is told to recover the key
when it connects again.
-/

import SockMyPort.Almacen.Values

namespace SockMyPort.Almacen

open SockMyPort.Commons SockMyPort.Coordinador SockMyPort.Instancia Library

/-! ## What may happen later -/

/-- What the instances remove from their dumpers has been stored, the keys that are set name
files of the directories, and what is recovered has a file of its own. -/
def keepsAllFiles (config : InstanceRef → Instancia.Config) (almacen : AlmacenState)
    (event : AlmacenEvent) : Bool :=
  (lifeEventOf almacen event).all fun acting =>
    keepsFiles (config acting.1) (almacen.peers acting.1) acting.2

/-- What a value that is stored relies on, until it is. -/
def keepsStored (config : InstanceRef → Instancia.Config) (key : CString) (almacen : AlmacenState)
    (event : AlmacenEvent) : Bool :=
  keepsValues key almacen event && keepsAllFiles config almacen event

/-- Something is asked about a key. -/
def isAbout (key : CString) : AlmacenEvent → Bool
  | .get other | .request _ _ other => other = key
  | _ => false

/-- Nothing is asked about a key, and the instance that has stored it does not evict it. -/
def leavesStored (config : InstanceRef → Instancia.Config) (key : CString) (node : InstanceRef)
    (almacen : AlmacenState) (event : AlmacenEvent) : Bool :=
  !isAbout key event && keepsAllFiles config almacen event &&
    (lifeEventOf almacen event).all fun acting =>
      acting.1 ≠ node || sparesKey (config node) key (almacen.peers node) acting.2

/-- A value that was stored: the key table has the instance, a STORE that may be in flight
has been answered by it, and the value is on its disk. -/
structure Durable (config : InstanceRef → Instancia.Config) (key value : CString)
    (node : InstanceRef) (almacen : AlmacenState) : Prop where
  holder : keyTableGet almacen.tables key = some ⟨true, some node⟩
  answered : ∀ place ∈ almacen.about key, place.request.type = .store ∧
    ∃ usedEntries, place.stage = .answered (.status 1 usedEntries)
  settled : WriteBack.Settled key value (almacen.peers node).store
  peers : ∀ node, Represents (config node) (almacen.peers node)

section Steps

variable {setup : Setup} {config : InstanceRef → Instancia.Config} {almacen next : AlmacenState}
  {key value : CString} {node : InstanceRef} {event : AlmacenEvent}

/-- Every instance goes on representing its store. -/
theorem represents_of_move (hpeers : ∀ node, Represents (config node) (almacen.peers node))
    (hfiles : keepsAllFiles config almacen event = true)
    (hmove : Move setup config almacen next event) (node : InstanceRef) :
    Represents (config node) (next.peers node) := by
  obtain hsame | ⟨acting, life, hacting, process, hprocess, hupdate⟩ := hmove.peers
  · exact hsame ▸ hpeers node
  · rw [keepsAllFiles, hacting, Option.all_some] at hfiles
    rw [hupdate]
    by_cases hnode : node = acting
    · subst hnode
      rw [Function.update_self]
      exact (hpeers node).step hfiles hprocess
    · rw [Function.update_of_ne hnode]
      exact hpeers node

/-- A request that has not been answered is about another key. -/
theorem Durable.key_ne (h : Durable config key value node almacen) {place : Place}
    {rest : List Place} (hbefore : almacen.places.Perm (place :: rest))
    (hstage : ∀ outcome, place.stage ≠ .answered outcome) : place.request.key ≠ key := by
  intro hkey
  obtain ⟨-, usedEntries, hanswered⟩ := h.answered place
    (List.mem_filter.mpr ⟨hbefore.mem_iff.mpr List.mem_cons_self, decide_eq_true hkey⟩)
  exact hstage _ hanswered

/-- The answer to the STORE leaves the table as it is. -/
theorem Durable.concludes (h : Durable config key value node almacen) {fd : ℤ}
    {other : InstanceRef} {request : RequestNode} {outcome : Outcome} {rest : List Place}
    (hkey : request.key = key)
    (hbefore : almacen.places.Perm (⟨other, request, .answered outcome⟩ :: rest))
    (hafter : next.places.Perm
      ((handleAnswer setup almacen.tables other request outcome).queued.toList.map queuedPlace ++
        rest))
    (htables : next.tables =
      afterTurn fd other (handleAnswer setup almacen.tables other request outcome)) :
    keyTableGet next.tables key = keyTableGet almacen.tables key ∧
      ∀ place ∈ next.about key, place ∈ almacen.about key := by
  have hnow := @about_of_perm almacen key _ hbefore
  rw [List.filter_cons_of_pos (by simpa using hkey)] at hnow
  obtain ⟨hstore, usedEntries, hstage⟩ := h.answered ⟨other, request, .answered outcome⟩
    (hnow.mem_iff.mpr List.mem_cons_self)
  obtain rfl := Stage.answered.inj hstage
  have htype : request.type = .store := hstore
  have hhandled :
      (handleAnswer setup almacen.tables other request (.status 1 usedEntries)).queued = none ∧
      (handleAnswer setup almacen.tables other request (.status 1 usedEntries)).tables =
        almacen.tables := by
    simp only [handleAnswer, htype, instanceHandleStoreRequest, if_true]
    exact ⟨rfl, rfl⟩
  rw [hhandled.1] at hafter
  refine ⟨?_, fun place hmem => hnow.mem_iff.mpr (List.mem_cons_of_mem _
    ((about_of_perm hafter).mem_iff.mp hmem))⟩
  rw [htables, (leaves_afterTurn fd other).entry, hhandled.2]

/-- What the tables and the requests go on saying. -/
theorem Durable.tables (h : Durable config key value node almacen)
    (haway : isAbout key event = false) (hmove : Move setup config almacen next event) :
    keyTableGet next.tables key = keyTableGet almacen.tables key ∧
      ∀ place ∈ next.about key, place ∈ almacen.about key := by
  cases hmove.about key with
  | elsewhere _ helsewhere | exchangeElsewhere _ _ helsewhere =>
      exact ⟨helsewhere.leaves.entry, fun place hmem => helsewhere.about.mem_iff.mp hmem⟩
  | creates | asks => exact absurd rfl (of_decide_eq_false haway)
  | pop hkey hbefore => exact absurd hkey (h.key_ne hbefore fun _ => Stage.noConfusion)
  | exchange hkey _ hbefore | refuseStore hkey _ hbefore =>
      exact absurd hkey (h.key_ne hbefore fun _ => Stage.noConfusion)
  | conclude hkey hbefore hafter htables => exact h.concludes hkey hbefore hafter htables

/-- **One step.** -/
theorem Durable.step (h : Durable config key value node almacen)
    (hleaves : leavesStored config key node almacen event = true)
    (hmove : Move setup config almacen next event) : Durable config key value node next := by
  simp only [leavesStored, Bool.and_eq_true, Bool.not_eq_true'] at hleaves
  obtain ⟨⟨haway, hfiles⟩, hspares⟩ := hleaves
  obtain ⟨hentry, habout⟩ := h.tables haway hmove
  refine ⟨hentry.trans h.holder, fun place hmem => h.answered place (habout place hmem), ?_,
    represents_of_move h.peers hfiles hmove⟩
  obtain hsame | ⟨acting, life, hacting, process, hprocess, hupdate⟩ := hmove.peers
  · exact hsame ▸ h.settled
  · rw [hacting, Option.all_some] at hspares
    rw [hupdate]
    by_cases hnode : node = acting
    · subst hnode
      have hkept : sparesKey (config node) key (almacen.peers node) life = true := by
        simpa using hspares
      rw [Function.update_self, store_lifeStep hprocess]
      exact h.settled.applyAll fun operation hmem =>
        of_decide_eq_true (List.all_eq_true.mp hkept operation hmem)
    · rw [Function.update_of_ne hnode]
      exact h.settled

end Steps

/-! ## Runs -/

section Runs

variable {setup : Setup} {config : InstanceRef → Instancia.Config}
  {before stored finish : AlmacenState}
  {mountPoints : InstanceRef → CString} {events later : List AlmacenEvent}
  {key : CString} {node : InstanceRef} {i : ℕ} {fd : ℤ} {request : RequestNode} {usedEntries : ℕ}

/-- The exchange of a STORE that is answered with success. -/
theorem exists_durable {asked : List (ℤ × RequestType)} (h : Values config before key asked)
    (hfiles : ∀ node, Represents (config node) (before.peers node))
    (hthread : before.threads[i]? = some ⟨node, fd, .handling request⟩)
    (htype : request.type = .store) (hkey : request.key = key)
    (hinitialized : keyTableIsNew before.tables key = false)
    (hanswer : answerOf (config node) (before.peers node).filed.state (.store key true) =
      .status 1 usedEntries)
    (hstep : almacenStep setup config before (.exchange i .answered) = some stored) :
    ∃ value, lastSet asked = some value ∧ Durable config key value node stored := by
  obtain ⟨conversations, hserialized⟩ := h.serialized
  cases move_of_almacenStep hstep with
  | stay _ _ _ hexchange => exact absurd rfl (hexchange i .answered)
  | refuseStore hhandling _ hnew =>
      cases hthread.symm.trans hhandling
      rw [hkey, hinitialized] at hnew
      cases hnew
  | exchange hhandling hsent hbefore hafter htables hlog hpeers =>
      cases hthread.symm.trans hhandling
      obtain ⟨hplace, hrest, -, -⟩ := hserialized.of_place hbefore hkey
      have hnow := @about_of_perm before key _ hbefore
      have hnext := @about_of_perm stored key _ hafter
      rw [List.filter_cons_of_pos (by simpa using hkey), hrest] at hnow hnext
      obtain ⟨initialized, hget, -⟩ := hplace.assigned
      have hholder : keyTableGet before.tables key = some ⟨true, some node⟩ := by
        rw [keyTableIsNew, hget] at hinitialized
        cases initialized with
        | true => exact hget
        | false => cases hinitialized
      obtain ⟨value, hlast, hfresh⟩ := h.kept.settled (fun place hmem => by
        rw [List.perm_singleton.mp hnow] at hmem
        exact List.mem_singleton.mp hmem ▸ htype) node hholder
      cases hpeers with
      | answered hasked hacts =>
          obtain ⟨process, hprocess, hupdate⟩ := hacts
          rw [instruction, htype] at hasked
          obtain rfl := Option.some.inj hasked
          rw [hkey] at hprocess hasked
          have hsettled := settled_of_store (hfiles node) hfresh hprocess hanswer rfl
          refine ⟨value, hlast, ⟨htables ▸ hholder, fun place hmem => ?_, ?_, fun other => ?_⟩⟩
          · rw [hnext.mem_iff, List.mem_singleton] at hmem
            rw [hmem]
            exact ⟨htype, usedEntries, congrArg Stage.answered (hkey ▸ hanswer)⟩
          · rw [hupdate, Function.update_self]
            exact hsettled
          · rw [hupdate]
            by_cases hother : other = node
            · subst hother
              rw [Function.update_self]
              exact (hfiles other).step (keepsFiles_store hprocess) hprocess
            · rw [Function.update_of_ne hother]
              exact hfiles other

/-- **What is stored stays.** From the moment when an instance answers a STORE with success,
as long as nothing is asked about the key and the instance does not evict it, the file of the
key has the value that was set last, whatever happens, and nothing else is read for it. -/
theorem durable_of_runs (hrun : (almacenStep setup config).Runs
      (fun almacen event => keepsStored config key almacen event = true)
      (AlmacenState.init config mountPoints) events before)
    (hthread : before.threads[i]? = some ⟨node, fd, .handling request⟩)
    (htype : request.type = .store) (hkey : request.key = key)
    (hinitialized : keyTableIsNew before.tables key = false)
    (hanswer : answerOf (config node) (before.peers node).filed.state (.store key true) =
      .status 1 usedEntries)
    (hstep : almacenStep setup config before (.exchange i .answered) = some stored)
    (hlater : (almacenStep setup config).Runs
      (fun almacen event => leavesStored config key node almacen event = true)
      stored later finish) :
    ∃ value, lastSet (events.flatMap (askedAbout key)) = some value ∧
      fileOf (finish.peers node).filed.state.dumper key = some (bytesOf value) ∧
      (∀ keyValue, instanceStatus (config node) (finish.peers node).filed.state key =
        some keyValue → keyValue = keyValueCreate key value) ∧
      keyTableGet finish.tables key = some ⟨true, some node⟩ := by
  have hvalues := (values_init config mountPoints key).runs
    (hrun.mono fun _ _ hkept => ((Bool.and_eq_true _ _).mp hkept).1)
  have hfiles : ∀ node, Represents (config node) (before.peers node) := hrun.invariant
    (fun almacen => ∀ node, Represents (config node) (almacen.peers node))
    (fun hpeers hkept hstep =>
      represents_of_move hpeers ((Bool.and_eq_true _ _).mp hkept).2 (move_of_almacenStep hstep))
    fun node => represents_firstProcess (mountPoints node)
  obtain ⟨value, hlast, hdurable⟩ :=
    exists_durable hvalues hfiles hthread htype hkey hinitialized hanswer hstep
  have hfinish : Durable config key value node finish := hlater.invariant _
    (fun h hleaves hstep => h.step hleaves (move_of_almacenStep hstep)) hdurable
  refine ⟨value, hlast, ?_, fun keyValue hstatus => ?_, hfinish.holder⟩
  · rw [(hfinish.peers node).disk.value, hfinish.settled.disk]
    rfl
  · rw [(hfinish.peers node).instanceStatus_eq] at hstatus
    obtain ⟨found, hfound, rfl⟩ := Option.map_eq_some_iff.mp hstatus
    rw [hfinish.settled.memory found hfound]

end Runs

/-- `a` is set and about to be stored. -/
def untilStore : List AlmacenEvent :=
  [.connect (literal [112]) 5 0 true true, .peer 0 (.thread (.recover [])), .get (literal [97]),
    .request 9 (.set (literal [120])) (literal [97]), .pop 0, .exchange 0 .answered, .conclude 0,
    .request 9 .store (literal [97]), .pop 0]

/-- The instance is killed before the ESI has its reply, while it dumps the key, and then once
more. -/
def killedTwice : List AlmacenEvent :=
  [.peer 0 (.restartDuring (.request .dump) 0 (some (.resized []))), .conclude 0,
    .connect (literal [112]) 7 1 false true,
    .peer 0 (.thread (.recover [literal [97]])), .get (literal [98]),
    .request 8 (.set (literal [120])) (literal [98]), .pop 1, .exchange 1 (.answerLost true),
    .peer 0 .restart, .conclude 1]

theorem durable_killedTwice : ∃ before stored finish,
    (almacenStep ⟨.el, insertionListSort⟩ fun _ => threeEntries).Runs
      (fun almacen event => keepsStored (fun _ => threeEntries) (literal [97]) almacen event = true)
      (AlmacenState.init (fun _ => threeEntries) ownDirectory) untilStore before ∧
    almacenStep ⟨.el, insertionListSort⟩ (fun _ => threeEntries) before (.exchange 0 .answered) =
      some stored ∧
    (almacenStep ⟨.el, insertionListSort⟩ fun _ => threeEntries).Runs
      (fun almacen event =>
        leavesStored (fun _ => threeEntries) (literal [97]) 0 almacen event = true)
      stored killedTwice finish ∧
    ∃ value, lastSet [(9, .set (literal [120])), (9, .store)] = some value ∧
      fileOf (finish.peers 0).filed.state.dumper (literal [97]) = some (bytesOf value) ∧
      (∀ keyValue, instanceStatus threeEntries (finish.peers 0).filed.state (literal [97]) =
        some keyValue → keyValue = keyValueCreate (literal [97]) value) ∧
      keyTableGet finish.tables (literal [97]) = some ⟨true, some 0⟩ := by
  obtain ⟨before, hrun, hcheck⟩ := PartialStep.exists_run_of_execute
    ((almacenStep ⟨.el, insertionListSort⟩ fun _ => threeEntries).guarded
      (keepsStored (fun _ => threeEntries) (literal [97])))
    (AlmacenState.init (fun _ => threeEntries) ownDirectory) untilStore
    (fun (before : AlmacenState) =>
      decide (before.threads[0]? =
        some (⟨0, 5, .handling ⟨9, .store, literal [97], []⟩⟩ : InstanceThread)) &&
      !keyTableIsNew before.tables (literal [97]) &&
      decide (answerOf threeEntries (before.peers 0).filed.state (.store (literal [97]) true) =
        .status 1 0) &&
      ((almacenStep ⟨.el, insertionListSort⟩ (fun _ => threeEntries) before
        (.exchange 0 .answered)).any fun stored =>
          (almacenStep ⟨.el, insertionListSort⟩ fun _ => threeEntries).allows
            (leavesStored (fun _ => threeEntries) (literal [97]) 0) stored killedTwice))
    (by decide +kernel)
  simp only [Bool.and_eq_true, decide_eq_true_eq, Bool.not_eq_true'] at hcheck
  obtain ⟨⟨⟨hthread, hinitialized⟩, hanswer⟩, hlater⟩ := hcheck
  obtain ⟨stored, hstep, hallows⟩ := (Option.any_eq_true _ _).mp hlater
  obtain ⟨finish, hexec⟩ := Option.isSome_iff_exists.mp hallows
  have hguarded := PartialStep.runs_of_guarded hrun
  have hrest := PartialStep.runs_of_guarded (PartialStep.runs_of_execute hexec)
  exact ⟨before, stored, finish, hguarded, hstep, hrest,
    durable_of_runs hguarded hthread rfl rfl hinitialized hanswer hstep hrest⟩

end SockMyPort.Almacen
