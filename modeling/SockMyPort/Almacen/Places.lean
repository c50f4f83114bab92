/-
# Where requests are

A request is in the queue of an instance, or with one of its threads. Every step leaves all
requests where they are, brings a new one, moves one or ends one, and at most one instance
does something in it.
-/

import SockMyPort.Almacen.Almacen

namespace SockMyPort.Almacen

open SockMyPort.Commons SockMyPort.Coordinador SockMyPort.Instancia Library

/-! ## Places -/

/-- How far a request is. -/
inductive Stage
  | queued
  | handling
  | answered (outcome : Outcome)

/-- A request at an instance. -/
structure Place where
  node : InstanceRef
  request : RequestNode
  stage : Stage

/-- The place of the request that a thread has. -/
def InstanceThread.place (thread : InstanceThread) : Option Place :=
  match thread.phase with
  | .waiting | .left => none
  | .handling request => some ⟨thread.node, request, .handling⟩
  | .answered request outcome => some ⟨thread.node, request, .answered outcome⟩

/-- A request in a queue. -/
def queuedPlace (queued : InstanceRef × RequestNode) : Place := ⟨queued.1, queued.2, .queued⟩

/-- The places of all requests. -/
def AlmacenState.places (almacen : AlmacenState) : List Place :=
  almacen.requests.map queuedPlace ++ almacen.threads.filterMap InstanceThread.place

theorem map_request_places (almacen : AlmacenState) :
    almacen.places.map Place.request = almacen.inFlight := by
  have hplace : ∀ thread : InstanceThread,
      thread.place.map Place.request = thread.phase.request := fun thread => by
    simp only [InstanceThread.place]
    cases thread.phase <;> rfl
  simp only [AlmacenState.places, AlmacenState.inFlight, List.map_append, List.map_map,
    List.map_filterMap,
    hplace]
  rfl

/-- A thread among the others. -/
theorem exists_split_of_getElem? {α : Type*} {list : List α} {i : ℕ} {element : α}
    (hget : list[i]? = some element) :
    ∃ before after, list = before ++ element :: after ∧
      ∀ other, list.set i other = before ++ other :: after := by
  induction list generalizing i with
  | nil => simp at hget
  | cons first list ih =>
      cases i with
      | zero =>
          obtain rfl := Option.some.inj hget
          exact ⟨[], list, rfl, fun _ => rfl⟩
      | succ i =>
          obtain ⟨before, after, hlist, hset⟩ := ih (by simpa using hget)
          refine ⟨first :: before, after, by rw [hlist, List.cons_append], fun other => ?_⟩
          rw [List.set_cons_succ, hset, List.cons_append]

/-- What a thread has is moved with it. -/
theorem exists_rest_of_thread {threads : List InstanceThread} {i : ℕ} {thread : InstanceThread}
    (hthread : threads[i]? = some thread) :
    ∃ rest : List Place,
      (threads.filterMap InstanceThread.place).Perm (thread.place.toList ++ rest) ∧
        ∀ other : InstanceThread, ((threads.set i other).filterMap InstanceThread.place).Perm
          (other.place.toList ++ rest) := by
  obtain ⟨before, after, hlist, hset⟩ := exists_split_of_getElem? hthread
  have hplace : ∀ other : InstanceThread,
      ((before ++ other :: after).filterMap InstanceThread.place).Perm
        (other.place.toList ++ (before.filterMap InstanceThread.place ++
          after.filterMap InstanceThread.place)) := fun other => by
    rw [List.filterMap_append, List.filterMap_cons]
    cases other.place with
    | none => exact .refl _
    | some place => exact List.perm_middle
  exact ⟨_, hlist ▸ hplace thread, fun other => hset other ▸ hplace other⟩

/-- The first request of a queue is taken out of it. -/
theorem perm_of_find? {requests : List (InstanceRef × RequestNode)} {node other : InstanceRef}
    {request : RequestNode}
    (hfind : requests.find? (fun queued => decide (queued.1 = node)) = some (other, request)) :
    other = node ∧ requests.Perm ((other, request) ::
      listRemoveByCondition requests fun queued => queued.1 = node) := by
  have hnode : other = node := by simpa using List.find?_some hfind
  refine ⟨hnode, ?_⟩
  induction requests with
  | nil => cases hfind
  | cons first requests ih =>
      by_cases hfirst : first.1 = node
      · rw [List.find?_cons_of_pos (by simpa using hfirst)] at hfind
        obtain rfl := Option.some.inj hfind
        rw [listRemoveByCondition, List.eraseP_cons_of_pos (by simpa using hfirst)]
      · rw [List.find?_cons_of_neg (by simpa using hfirst)] at hfind
        rw [listRemoveByCondition, List.eraseP_cons_of_neg (by simpa using hfirst)]
        exact ((ih hfind).cons first).trans (.swap _ _ _)

/-! ## What a step does to them -/

/-- The tables after a turn. -/
def afterTurn (fd : ℤ) (node : InstanceRef) (handled : Handled) : Tables :=
  let reconnected := !decide (fd = (handled.tables.nodes node).fd)
  if handled.success || reconnected then handled.tables
  else instanceListRemove handled.tables (handled.tables.nodes node).name

/-- The effects of a request, as they are in the log. -/
def tagged (key : CString) (effects : List Effect) : List (CString × Effect) :=
  effects.map fun effect => (key, effect)

variable (setup : Setup) (config : InstanceRef → Instancia.Config)

/-- An instance does something, and the others do nothing. -/
def Acts (peers next : InstanceRef → InstanceProcess) (node : InstanceRef)
    (event : LifeEvent) : Prop :=
  ∃ process, lifeStep (config node) (peers node) event = some process ∧
    next = Function.update peers node process

/-- What an exchange does to the instances, and how it ends: the instance gets no
instruction, or it does what it is told, and the coordinator gets its answer or none. -/
inductive Exchanged (isNew : Bool) (peers next : InstanceRef → InstanceProcess)
    (node : InstanceRef) (request : RequestNode) : Fate → Outcome → Prop
  | sendFailure (hpeers : next = peers) :
      Exchanged isNew peers next node request .sendFailure .sendFailure
  | recvFailure (hpeers : next = peers) :
      Exchanged isNew peers next node request .recvFailure .recvFailure
  | answerLost {asked : Request} {sendOk : Bool}
      (hasked : instruction isNew request sendOk = some asked)
      (hacts : Acts config peers next node (.thread (.request asked))) :
      Exchanged isNew peers next node request (.answerLost sendOk) .recvFailure
  | answered {asked : Request} (hasked : instruction isNew request true = some asked)
      (hacts : Acts config peers next node (.thread (.request asked))) :
      Exchanged isNew peers next node request .answered
        (answerOf (config node) (peers node).filed.state asked)

/-- What a step does to the requests, the tables, the log and the instances. -/
inductive Move (almacen next : AlmacenState) : AlmacenEvent → Prop
  /-- Nothing happens to the requests. -/
  | stay {event : AlmacenEvent} (hplaces : next.places.Perm almacen.places)
      (hlog : next.log = almacen.log)
      (hrequest : ∀ esiFd type key, event ≠ .request esiFd type key)
      (hexchange : ∀ i fate, event ≠ .exchange i fate)
      (htables : next.tables = almacen.tables ∨
        (∃ key, event = .get key ∧ next.tables = keyTableCreateKey almacen.tables key none) ∨
        ∃ name fd created testConnection confirmed,
          event = .connect name fd created testConnection confirmed ∧
            next.tables = (instanceListAdd almacen.tables name fd created testConnection).2)
      (hpeers : next.peers = almacen.peers ∨ ∃ node life, event = .peer node life ∧
        isUninstructed life = true ∧ Acts config almacen.peers next.peers node life) :
      Move almacen next event
  /-- No instance is available. -/
  | refuse {esiFd : ℤ} {type : RequestType} {key : CString} (hplaces : next.places = almacen.places)
      (hdispatch : dispatch setup almacen.tables key [] = (none, next.tables))
      (hlog : next.log = almacen.log ++ tagged key [.replied esiFd .illegalOperation])
      (hpeers : next.peers = almacen.peers) : Move almacen next (.request esiFd type key)
  | enter {esiFd : ℤ} {type : RequestType} {key : CString} {node : InstanceRef}
      (hdispatch : dispatch setup almacen.tables key [] = (some node, next.tables))
      (hplaces : next.places.Perm (⟨node, ⟨esiFd, type, key, []⟩, .queued⟩ :: almacen.places))
      (hlog : next.log = almacen.log) (hpeers : next.peers = almacen.peers) :
      Move almacen next (.request esiFd type key)
  | pop {i : ℕ} {node : InstanceRef} {request : RequestNode} {rest : List Place}
      (hbefore : almacen.places.Perm (⟨node, request, .queued⟩ :: rest))
      (hafter : next.places.Perm (⟨node, request, .handling⟩ :: rest))
      (htables : next.tables = almacen.tables) (hlog : next.log = almacen.log)
      (hpeers : next.peers = almacen.peers) : Move almacen next (.pop i)
  | exchange {i : ℕ} {fate : Fate} {fd : ℤ} {node : InstanceRef} {request : RequestNode}
      {outcome : Outcome} {rest : List Place}
      (hthread : almacen.threads[i]? = some ⟨node, fd, .handling request⟩)
      (hinitialized : request.type = .store → keyTableIsNew almacen.tables request.key = false)
      (hbefore : almacen.places.Perm (⟨node, request, .handling⟩ :: rest))
      (hafter : next.places.Perm (⟨node, request, .answered outcome⟩ :: rest))
      (htables : next.tables = almacen.tables)
      (hlog : next.log = almacen.log ++ tagged request.key [.instruction node])
      (hpeers : Exchanged config (keyTableIsNew almacen.tables request.key) almacen.peers next.peers
        node request fate outcome) : Move almacen next (.exchange i fate)
  /-- A STORE of a key that was never set is answered without an exchange. -/
  | refuseStore {i : ℕ} {fate : Fate} {fd : ℤ} {node : InstanceRef} {request : RequestNode}
      {rest : List Place} (hthread : almacen.threads[i]? = some ⟨node, fd, .handling request⟩)
      (hstore : request.type = .store)
      (hnew : keyTableIsNew almacen.tables request.key = true)
      (hbefore : almacen.places.Perm (⟨node, request, .handling⟩ :: rest))
      (hafter : next.places.Perm rest)
      (htables : next.tables = keyTableRemove almacen.tables request.key)
      (hlog : next.log = almacen.log ++
        tagged request.key [.replied request.requestingEsiFd .illegalOperation, .destroyed])
      (hpeers : next.peers = almacen.peers) : Move almacen next (.exchange i fate)
  | conclude {i : ℕ} {fd : ℤ} {node : InstanceRef} {request : RequestNode} {outcome : Outcome}
      {rest : List Place}
      (hbefore : almacen.places.Perm (⟨node, request, .answered outcome⟩ :: rest))
      (hafter : next.places.Perm
        ((handleAnswer setup almacen.tables node request outcome).queued.toList.map queuedPlace ++
          rest))
      (htables : next.tables =
        afterTurn fd node (handleAnswer setup almacen.tables node request outcome))
      (hlog : next.log = almacen.log ++
        tagged request.key (handleAnswer setup almacen.tables node request outcome).effects)
      (hpeers : next.peers = almacen.peers) : Move almacen next (.conclude i)

section Steps

variable {setup config} {almacen next : AlmacenState}

theorem places_peerStep {node : InstanceRef} {event : LifeEvent}
    (hpeer : peerStep config almacen node event = some next) :
    next.places = almacen.places ∧ next.tables = almacen.tables ∧ next.log = almacen.log ∧
      next.threads = almacen.threads ∧ next.requests = almacen.requests ∧
        Acts config almacen.peers next.peers node event := by
  obtain ⟨process, hprocess, rfl⟩ := Option.map_eq_some_iff.mp hpeer
  exact ⟨rfl, rfl, rfl, rfl, rfl, process, hprocess, rfl⟩

theorem move_esiRequest (esiFd : ℤ) (type : RequestType) (key : CString) :
    Move setup config almacen (esiRequest setup almacen esiFd type key)
      (.request esiFd type key) := by
  rcases hdispatch : dispatch setup almacen.tables key [] with ⟨_ | node, dispatched⟩
  · have hnext : esiRequest setup almacen esiFd type key =
        AlmacenState.record { almacen with tables := dispatched } key
          [.replied esiFd .illegalOperation] := by
      simp only [esiRequest, hdispatch]
    rw [hnext]
    exact .refuse rfl hdispatch rfl rfl
  · have hnext : esiRequest setup almacen esiFd type key = { almacen with
        tables := dispatched
        requests := almacen.requests ++ [(node, ⟨esiFd, type, key, []⟩)] } := by
      simp only [esiRequest, hdispatch]
    rw [hnext]
    refine .enter hdispatch ?_ rfl rfl
    simp only [AlmacenState.places, List.map_append, List.append_assoc]
    exact List.perm_middle

theorem move_instanceConnect {name : CString} {fd : ℤ} {created : InstanceRef}
    {testConnection confirmed : Bool}
    (hconnect : instanceConnect almacen name fd created testConnection confirmed = some next) :
    Move setup config almacen next (.connect name fd created testConnection confirmed) := by
  simp only [instanceConnect] at hconnect
  split at hconnect
  · cases hconnect
  · rcases hadd : instanceListAdd almacen.tables name fd created testConnection with
      ⟨_ | node, added⟩
    · rw [hadd] at hconnect
      obtain rfl := Option.some.inj hconnect
      exact .stay (.refl _) rfl (fun _ _ _ => AlmacenEvent.noConfusion)
        (fun _ _ => AlmacenEvent.noConfusion) (.inl rfl) (.inl rfl)
    · rw [hadd] at hconnect
      obtain rfl := Option.some.inj hconnect
      refine .stay ?_ rfl (fun _ _ _ => AlmacenEvent.noConfusion)
        (fun _ _ => AlmacenEvent.noConfusion)
        (.inr (.inr ⟨name, fd, created, testConnection, confirmed, rfl, by rw [hadd]⟩)) (.inl rfl)
      cases confirmed with
      | false => exact .refl _
      | true =>
          simp only [AlmacenState.places, if_true, List.filterMap_append]
          exact .of_eq (congrArg _ (List.append_nil _))

theorem move_popRequest {i : ℕ} (hpop : popRequest almacen i = some next) :
    Move setup config almacen next (.pop i) := by
  obtain ⟨thread, hthread, hrest⟩ := Option.bind_eq_some_iff.mp hpop
  obtain ⟨⟨other, request⟩, hfind, hrest⟩ := Option.bind_eq_some_iff.mp hrest
  obtain ⟨rfl, hqueue⟩ := perm_of_find? hfind
  obtain ⟨held, hheld, hset⟩ := exists_rest_of_thread hthread
  have hqueued := hqueue.map queuedPlace
  cases hphase : thread.phase with
  | handling _ | answered _ _ | left =>
      simp only [hphase] at hrest
      cases hrest
  | waiting =>
      have hidle : thread.place = none := by simp only [InstanceThread.place, hphase]
      rw [hidle] at hheld
      simp only [hphase] at hrest
      split at hrest
      · obtain rfl := Option.some.inj hrest
        have hbefore : almacen.places.Perm (⟨thread.node, request, .queued⟩ ::
            ((listRemoveByCondition almacen.requests fun queued => queued.1 = thread.node).map
              queuedPlace ++ held)) := hqueued.append hheld
        have hafter := ((List.Perm.refl ((listRemoveByCondition almacen.requests fun queued =>
          queued.1 = thread.node).map queuedPlace)).append
            (hset { thread with phase := .handling request })).trans List.perm_middle
        exact .pop hbefore hafter rfl rfl rfl
      · obtain rfl := Option.some.inj hrest
        refine .stay ?_ rfl (fun _ _ _ => AlmacenEvent.noConfusion)
          (fun _ _ => AlmacenEvent.noConfusion) (.inl rfl) (.inl rfl)
        refine ((List.Perm.of_eq List.map_append).append (hset _)).trans ?_
        exact ((List.perm_append_singleton _ _).trans hqueued.symm).append hheld.symm

/-- The end of a turn. -/
theorem places_concludeTurn {i : ℕ} {thread : InstanceThread} {place : Place}
    {request : RequestNode} (handled : Handled) (hthread : almacen.threads[i]? = some thread)
    (hplace : thread.place = some place) :
    ∃ rest, almacen.places.Perm (place :: rest) ∧
      (concludeTurn almacen i thread request handled).places.Perm
        (handled.queued.toList.map queuedPlace ++ rest) := by
  obtain ⟨held, hheld, hset⟩ := exists_rest_of_thread hthread
  rw [hplace] at hheld
  refine ⟨almacen.requests.map queuedPlace ++ held, ?_, ?_⟩
  · exact ((List.Perm.refl _).append hheld).trans List.perm_middle
  · have hdone := hset { thread with phase := if handled.success then .waiting else .left }
    have hidle : InstanceThread.place
        { thread with phase := if handled.success then .waiting else .left } = none := by
      cases handled.success <;> rfl
    rw [hidle] at hdone
    have hplaces : (concludeTurn almacen i thread request handled).places =
        (almacen.requests.map queuedPlace ++ handled.queued.toList.map queuedPlace) ++
          (almacen.threads.set i
            { thread with phase := if handled.success then .waiting else .left }).filterMap
              InstanceThread.place := by
      rw [← List.map_append]
      rfl
    rw [hplaces, ← List.append_assoc]
    exact List.perm_append_comm.append hdone

/-- The instruction has been sent, or not, and the thread knows how that ended. -/
theorem move_instructed {i : ℕ} {fate : Fate} {thread : InstanceThread} {request : RequestNode}
    {asked : AlmacenState} (outcome : Outcome) (hthread : almacen.threads[i]? = some thread)
    (hphase : thread.phase = .handling request)
    (hinitialized : request.type = .store → keyTableIsNew almacen.tables request.key = false)
    (htables : asked.tables = almacen.tables) (hlog : asked.log = almacen.log)
    (hthreads : asked.threads = almacen.threads) (hrequests : asked.requests = almacen.requests)
    (hpeers : Exchanged config (keyTableIsNew almacen.tables request.key) almacen.peers asked.peers
      thread.node request fate outcome) :
    Move setup config almacen
      ((asked.setPhase i thread (.answered request outcome)).record request.key
      [.instruction thread.node]) (.exchange i fate) := by
  obtain ⟨held, hheld, hset⟩ := exists_rest_of_thread hthread
  have hplace : thread.place = some ⟨thread.node, request, .handling⟩ := by
    simp only [InstanceThread.place, hphase]
  rw [hplace] at hheld
  have hbefore : almacen.places.Perm (⟨thread.node, request, .handling⟩ ::
      (almacen.requests.map queuedPlace ++ held)) :=
    ((List.Perm.refl _).append hheld).trans List.perm_middle
  have hafter : ((asked.setPhase i thread (.answered request outcome)).record request.key
      [.instruction thread.node]).places.Perm (⟨thread.node, request, .answered outcome⟩ ::
        (almacen.requests.map queuedPlace ++ held)) := by
    refine .trans (.of_eq ?_) (((List.Perm.refl (almacen.requests.map queuedPlace)).append
      (hset { thread with phase := .answered request outcome })).trans List.perm_middle)
    rw [← hthreads, ← hrequests]
    rfl
  have hhandling : almacen.threads[i]? = some ⟨thread.node, thread.fd, .handling request⟩ := by
    rw [hthread, ← hphase]
  refine .exchange hhandling hinitialized hbefore hafter htables ?_ hpeers
  rw [← hlog]
  rfl

theorem move_exchangeRequest {i : ℕ} {fate : Fate}
    (hexchange : exchangeRequest config almacen i fate = some next) :
    Move setup config almacen next (.exchange i fate) := by
  obtain ⟨thread, hthread, hrest⟩ := Option.bind_eq_some_iff.mp hexchange
  cases hphase : thread.phase with
  | waiting | answered _ _ | left =>
      simp only [hphase] at hrest
      cases hrest
  | handling request =>
      simp only [hphase] at hrest
      split at hrest
      · rename_i hunset
        obtain rfl := Option.some.inj hrest
        have hplace : thread.place = some ⟨thread.node, request, .handling⟩ := by
          simp only [InstanceThread.place, hphase]
        obtain ⟨rest, hbefore, hafter⟩ := places_concludeTurn
          (answer (keyTableRemove almacen.tables request.key) request .illegalOperation true)
          hthread hplace
        have hhandling :
            almacen.threads[i]? = some ⟨thread.node, thread.fd, .handling request⟩ := by
          rw [hthread, ← hphase]
        exact .refuseStore hhandling hunset.1 hunset.2 hbefore hafter rfl rfl rfl
      · rename_i hset
        have hinitialized : request.type = .store →
            keyTableIsNew almacen.tables request.key = false := fun hstore => by
          cases hnew : keyTableIsNew almacen.tables request.key with
          | false => rfl
          | true => exact absurd ⟨hstore, hnew⟩ hset
        cases fate with
        | sendFailure =>
            obtain rfl := Option.some.inj hrest
            exact move_instructed _ hthread hphase hinitialized rfl rfl rfl rfl (.sendFailure rfl)
        | recvFailure =>
            obtain rfl := Option.some.inj hrest
            exact move_instructed _ hthread hphase hinitialized rfl rfl rfl rfl (.recvFailure rfl)
        | answerLost sendOk =>
            obtain ⟨asked, hasked, hrest⟩ := Option.bind_eq_some_iff.mp hrest
            obtain ⟨done, hpeer, hrest⟩ := Option.bind_eq_some_iff.mp hrest
            obtain rfl := Option.some.inj hrest
            obtain ⟨-, htables, hlog, hthreads, hrequests, hacts⟩ := places_peerStep hpeer
            exact move_instructed _ hthread hphase hinitialized htables hlog hthreads hrequests
              (.answerLost hasked hacts)
        | answered =>
            obtain ⟨asked, hasked, hrest⟩ := Option.bind_eq_some_iff.mp hrest
            obtain ⟨done, hpeer, hrest⟩ := Option.bind_eq_some_iff.mp hrest
            obtain rfl := Option.some.inj hrest
            obtain ⟨-, htables, hlog, hthreads, hrequests, hacts⟩ := places_peerStep hpeer
            exact move_instructed _ hthread hphase hinitialized htables hlog hthreads hrequests
              (.answered hasked hacts)

theorem move_concludeRequest {i : ℕ} (hconclude : concludeRequest setup almacen i = some next) :
    Move setup config almacen next (.conclude i) := by
  obtain ⟨thread, hthread, hrest⟩ := Option.bind_eq_some_iff.mp hconclude
  cases hphase : thread.phase with
  | waiting | handling _ | left =>
      simp only [hphase] at hrest
      cases hrest
  | answered request outcome =>
      simp only [hphase] at hrest
      obtain rfl := Option.some.inj hrest
      have hplace : thread.place = some ⟨thread.node, request, .answered outcome⟩ := by
        simp only [InstanceThread.place, hphase]
      obtain ⟨rest, hbefore, hafter⟩ := places_concludeTurn
        (handleAnswer setup almacen.tables thread.node request outcome) hthread hplace
      exact .conclude hbefore hafter rfl rfl rfl

/-- **What a step does.** -/
theorem move_of_almacenStep {event : AlmacenEvent}
    (hstep : almacenStep setup config almacen event = some next) :
    Move setup config almacen next event := by
  cases event with
  | get key =>
      obtain rfl := Option.some.inj hstep
      exact .stay (.refl _) rfl (fun _ _ _ => AlmacenEvent.noConfusion)
        (fun _ _ => AlmacenEvent.noConfusion) (.inr (.inl ⟨key, rfl, rfl⟩)) (.inl rfl)
  | request esiFd type key =>
      obtain rfl := Option.some.inj hstep
      exact move_esiRequest esiFd type key
  | connect name fd created testConnection confirmed => exact move_instanceConnect hstep
  | pop thread => exact move_popRequest hstep
  | exchange thread fate => exact move_exchangeRequest hstep
  | conclude thread => exact move_concludeRequest hstep
  | peer node event =>
      simp only [almacenStep] at hstep
      split at hstep
      · obtain ⟨hplaces, htables, hlog, -, -, hacts⟩ := places_peerStep hstep
        exact .stay (.of_eq hplaces) hlog (fun _ _ _ => AlmacenEvent.noConfusion)
          (fun _ _ => AlmacenEvent.noConfusion) (.inl htables) (.inr ⟨node, event, rfl, ‹_›, hacts⟩)
      · cases hstep

/-- What an event makes an instance do, if it is done. -/
def lifeEventOf (almacen : AlmacenState) : AlmacenEvent → Option (InstanceRef × LifeEvent)
  | .peer node event => some (node, event)
  | .exchange i fate =>
      match almacen.threads[i]? with
      | some ⟨node, _, .handling request⟩ =>
          let isNew := keyTableIsNew almacen.tables request.key
          match fate with
          | .sendFailure | .recvFailure => none
          | .answerLost sendOk =>
              (instruction isNew request sendOk).map fun asked => (node, .thread (.request asked))
          | .answered =>
              (instruction isNew request true).map fun asked => (node, .thread (.request asked))
      | _ => none
  | _ => none

/-- At most one instance does something, as in a run of its own. -/
theorem Move.peers {event : AlmacenEvent} (hmove : Move setup config almacen next event) :
    next.peers = almacen.peers ∨ ∃ node life, lifeEventOf almacen event = some (node, life) ∧
      Acts config almacen.peers next.peers node life := by
  cases hmove with
  | stay _ _ _ _ _ hpeers =>
      obtain hsame | ⟨node, life, rfl, -, hacts⟩ := hpeers
      · exact .inl hsame
      · exact .inr ⟨node, life, rfl, hacts⟩
  | refuse _ _ _ hpeers => exact .inl hpeers
  | enter _ _ _ hpeers => exact .inl hpeers
  | pop _ _ _ _ hpeers => exact .inl hpeers
  | exchange hthread _ _ _ _ _ hpeers =>
      cases hpeers with
      | sendFailure hpeers => exact .inl hpeers
      | recvFailure hpeers => exact .inl hpeers
      | answerLost hasked hacts =>
          refine .inr ⟨_, _, ?_, hacts⟩
          simp only [lifeEventOf, hthread, hasked, Option.map_some]
      | answered hasked hacts =>
          refine .inr ⟨_, _, ?_, hacts⟩
          simp only [lifeEventOf, hthread, hasked, Option.map_some]
  | refuseStore _ _ _ _ _ _ _ hpeers => exact .inl hpeers
  | conclude _ _ _ _ hpeers => exact .inl hpeers

end Steps

end SockMyPort.Almacen
