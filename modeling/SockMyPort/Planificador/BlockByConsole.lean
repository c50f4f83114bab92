/-
# Requests to block, one after the other

`block_by_console_procedure` blocks, in turn, the executing ESI and the ready ones that it was
asked for. Each request finds its key free, and takes it, or locked, and blocks the ESI: what
the requests of the list do together is what is granted and refused to who comes first. It
does not look whether the ESI of a request is still in its queue.
-/

import SockMyPort.Library.FirstCome
import SockMyPort.Library.Handover
import SockMyPort.Planificador.Ownership
import SockMyPort.Planificador.QueuePartition

namespace SockMyPort.Planificador

open SockMyPort.Commons Library

variable {config : Config} {state next : PlanificadorState config} {fd : ℤ}
  {request : EsiSexpectingKey} {requests : List EsiSexpectingKey}

/-- What the procedure is meant to keep. -/
structure WellFormed (state : PlanificadorState config) : Prop where
  /-- An ESI is in exactly one queue. -/
  once : ∀ fd ∈ state.ids, state.queues.count fd = 1
  /-- A key is locked at most once. -/
  locked : state.keys.Nodup
  /-- A blocked ESI has exactly one request. -/
  waits : ∀ fd ∈ state.gBlockedQueue,
    (state.gEsisSexpectingKeys.countP fun sexpecting => sexpecting.esiFd = fd) = 1

/-- The request about the first executing ESI that is looked at. -/
def executingRequest (state : PlanificadorState config) : Option EsiSexpectingKey :=
  state.gExecutionQueue.head?.bind fun executing =>
    state.gNewBlockedByConsoleEsis.find? fun pending => pending.esiFd = executing

/-! ## Requests in turn -/

/-- Requests about ESIs in the ready or the execution queue, one after the other. -/
def blockInTurn (state : PlanificadorState config) (turns : List (Place × EsiSexpectingKey)) :
    Option (PlanificadorState config) :=
  turns.foldlM (fun state turn => blockByConsole state (queueOf turn.1) turn.2) state

/-- The requests that are looked at, each with the queue of its ESI. -/
def turnsOf (state : PlanificadorState config) : List (Place × EsiSexpectingKey) :=
  (executingRequest state).toList.map (Prod.mk .running) ++
    (readyRequests state).map (Prod.mk .ready)

/-- What requests in turn do, in the terms of what is granted and refused. -/
structure InTurn (state next : PlanificadorState config) (requests : List EsiSexpectingKey) :
    Prop where
  gEsiBursts : next.gEsiBursts = state.gEsiBursts
  locked : next.gLockedKeys = state.gLockedKeys ++
    (FirstCome.granted EsiSexpectingKey.key state.keys requests).map fun request =>
      ⟨request.key, request.esiFd⟩
  waiting : next.gEsisSexpectingKeys = state.gEsisSexpectingKeys ++
    FirstCome.refused EsiSexpectingKey.key state.keys requests
  blocked : next.gBlockedQueue = state.gBlockedQueue ++
    (FirstCome.refused EsiSexpectingKey.key state.keys requests).map EsiSexpectingKey.esiFd

theorem mem_keys_iff {key : CString} :
    key ∈ state.keys ↔ determineIfKeyIsBlocked key state.gLockedKeys = true := by
  rw [determineIfKeyIsBlocked_iff, keys_dispatcher, PlanificadorState.keys]

/-- One request. -/
theorem inTurn_blockByConsole {place : Place}
    (hblock : blockByConsole state (queueOf place) request = some next) :
    request.esiFd ∈ state.ids ∧ InTurn state next [request] := by
  obtain ⟨applied, rfl, hmem, ⟨hlocked, rfl⟩ | ⟨hfree, rfl⟩⟩ := of_blockByConsole hblock
  · have hkey := mem_keys_iff.mpr hlocked
    have hids : request.esiFd ∈ state.ids := by cases place <;> exact hmem
    refine ⟨hids, ?_⟩
    cases place
    all_goals
      constructor <;> simp [FirstCome.granted, FirstCome.refused, hkey, blockedState, endTurn,
        moveEsiFromAndToQueue, PlanificadorState.setQueue, PlanificadorState.queue, queueOf]
  · have hkey : request.key ∉ state.keys := fun hkey => by
      rw [mem_keys_iff.mp hkey] at hfree
      cases hfree
    refine ⟨hmem, ?_⟩
    constructor <;> simp [FirstCome.granted, FirstCome.refused, hkey, takenState]

theorem exists_blockByConsole (place : Place) (hmem : request.esiFd ∈ state.ids) :
    ∃ next, blockByConsole state (queueOf place) request = some next := by
  cases hlocked : determineIfKeyIsBlocked request.key state.gLockedKeys with
  | true =>
      have hlog : logName (blockedState state (queueOf place) request) request.esiFd =
          some (blockedState state (queueOf place) request) :=
        logName_of_mem (by cases place <;> exact hmem)
      rw [blockedState] at hlog
      simp only [blockByConsole, hlocked, if_true, hlog]
      exact ⟨_, rfl⟩
  | false =>
      have hlog : logName (takenState state request) request.esiFd =
          some (takenState state request) := logName_of_mem hmem
      rw [takenState] at hlog
      simp only [blockByConsole, hlocked, Bool.false_eq_true, if_false, hlog]
      exact ⟨_, rfl⟩

namespace InTurn

theorem refl (state : PlanificadorState config) : InTurn state state [] where
  gEsiBursts := rfl
  locked := (List.append_nil _).symm
  waiting := (List.append_nil _).symm
  blocked := (List.append_nil _).symm

/-- The keys that are locked after some requests. -/
theorem mem_keys_iff (hturn : InTurn state next requests) {key : CString} :
    key ∈ next.keys ↔ key ∈ state.keys ++ requests.map EsiSexpectingKey.key := by
  have hkeys : next.keys = state.keys ++
      (FirstCome.granted EsiSexpectingKey.key state.keys requests).map EsiSexpectingKey.key := by
    rw [PlanificadorState.keys, hturn.locked, List.map_append, List.map_map]
    rfl
  rw [hkeys, FirstCome.mem_locked_append_granted, List.mem_append]

theorem ids (hturn : InTurn state next requests) : next.ids = state.ids := by
  rw [PlanificadorState.ids, hturn.gEsiBursts]
  rfl

theorem trans {middle : PlanificadorState config} {later : List EsiSexpectingKey}
    (hfirst : InTurn state middle requests) (hsecond : InTurn middle next later) :
    InTurn state next (requests ++ later) := by
  have hkeys : ∀ key, key ∈ middle.keys ↔
      key ∈ state.keys ++ requests.map EsiSexpectingKey.key := fun _ => hfirst.mem_keys_iff
  constructor
  case gEsiBursts => exact hsecond.gEsiBursts.trans hfirst.gEsiBursts
  case locked =>
    rw [hsecond.locked, hfirst.locked, FirstCome.granted_append, FirstCome.granted_congr hkeys,
      List.map_append, List.append_assoc]
  case waiting =>
    rw [hsecond.waiting, hfirst.waiting, FirstCome.refused_append, FirstCome.refused_congr hkeys,
      List.append_assoc]
  case blocked =>
    rw [hsecond.blocked, hfirst.blocked, FirstCome.refused_append, FirstCome.refused_congr hkeys,
      List.map_append, List.append_assoc]

end InTurn

/-- Requests in turn, when the program survives them. -/
theorem inTurn_blockInTurn {turns : List (Place × EsiSexpectingKey)}
    (hblock : blockInTurn state turns = some next) :
    (∀ turn ∈ turns, turn.2.esiFd ∈ state.ids) ∧ InTurn state next (turns.map Prod.snd) := by
  induction turns generalizing state with
  | nil =>
      obtain rfl := Option.some.inj hblock
      exact ⟨fun _ hmem => absurd hmem List.not_mem_nil, .refl state⟩
  | cons turn turns ih =>
      obtain ⟨middle, hfirst, hrest⟩ := Option.bind_eq_some_iff.mp hblock
      obtain ⟨hknown, hturn⟩ := inTurn_blockByConsole hfirst
      obtain ⟨hlater, hturns⟩ := ih hrest
      rw [hturn.ids] at hlater
      exact ⟨List.forall_mem_cons.mpr ⟨hknown, hlater⟩, hturn.trans hturns⟩

/-- The program survives requests about registered ESIs. -/
theorem exists_blockInTurn {turns : List (Place × EsiSexpectingKey)}
    (hknown : ∀ turn ∈ turns, turn.2.esiFd ∈ state.ids) :
    ∃ next, blockInTurn state turns = some next := by
  induction turns generalizing state with
  | nil => exact ⟨state, rfl⟩
  | cons turn turns ih =>
      obtain ⟨middle, hfirst⟩ := exists_blockByConsole turn.1 (hknown turn List.mem_cons_self)
      have hids := (inTurn_blockByConsole hfirst).2.ids
      obtain ⟨next, hrest⟩ := ih fun other hmem => by
        rw [hids]
        exact hknown other (List.mem_cons_of_mem _ hmem)
      exact ⟨next, Option.bind_eq_some_iff.mpr ⟨middle, hfirst, hrest⟩⟩

/-! ## The queues -/

/-- Blocking an ESI that is in its queue moves it. -/
theorem coe_queues_blockedState {place : Place}
    (hmem : request.esiFd ∈ state.queue (queueOf place)) :
    ((blockedState state (queueOf place) request).queues : Multiset ℤ) = state.queues := by
  obtain ⟨rest, hrest⟩ := Multiset.exists_cons_of_mem (Multiset.mem_coe.mpr hmem)
  rw [coe_queues, coe_queues]
  cases place with
  | ready =>
      have hready : (state.gReadyQueue : Multiset ℤ) = request.esiFd ::ₘ rest := hrest
      simp only [blockedState, endTurn, moveEsiFromAndToQueue, PlanificadorState.setQueue,
        PlanificadorState.queue, queueOf, PlanificadorState.dispatcher, coe_takeEsiAwayFromQueue,
        Dispatcher.coe_append_singleton, hready, Multiset.erase_cons_head]
      rw [← Multiset.singleton_add, ← Multiset.singleton_add request.esiFd rest]
      ac_rfl
  | running =>
      have hrunning : (state.gExecutionQueue : Multiset ℤ) = request.esiFd ::ₘ rest := hrest
      simp only [blockedState, endTurn, moveEsiFromAndToQueue, PlanificadorState.setQueue,
        PlanificadorState.queue, queueOf, PlanificadorState.dispatcher, coe_takeEsiAwayFromQueue,
        Dispatcher.coe_append_singleton, hrunning, Multiset.erase_cons_head]
      rw [← Multiset.singleton_add, ← Multiset.singleton_add request.esiFd rest]
      ac_rfl

/-- Another ESI stays in its queue. -/
theorem mem_queue_blockedState (place : Place) {other : Place} (hne : fd ≠ request.esiFd)
    (hmem : fd ∈ state.queue (queueOf other)) :
    fd ∈ (blockedState state (queueOf place) request).queue (queueOf other) := by
  have hkept : ∀ {queue : List ℤ}, fd ∈ queue → fd ∈ takeEsiAwayFromQueue queue request.esiFd :=
    fun hqueue => (List.mem_eraseP_of_neg (by simpa using hne)).mpr hqueue
  cases place <;> cases other
  · exact hkept hmem
  · exact hmem
  · exact hmem
  · exact hkept hmem

/-- A request that blocks an ESI that is in its queue, or gives it the key, keeps who is in
the queues, and where the other ESIs are. -/
theorem queues_blockByConsole {place : Place}
    (hblock : blockByConsole state (queueOf place) request = some next)
    (hmem : request.key ∈ state.keys → request.esiFd ∈ state.queue (queueOf place)) :
    (next.queues : Multiset ℤ) = state.queues ∧
      ∀ {fd : ℤ} {other : Place}, (request.key ∈ state.keys → fd ≠ request.esiFd) →
        fd ∈ state.queue (queueOf other) → fd ∈ next.queue (queueOf other) := by
  obtain ⟨applied, rfl, -, ⟨hlocked, rfl⟩ | ⟨-, rfl⟩⟩ := of_blockByConsole hblock
  · have hkey := mem_keys_iff.mpr hlocked
    refine ⟨coe_queues_blockedState (hmem hkey), fun {fd other} hne hfd => ?_⟩
    have hkept := mem_queue_blockedState place (hne hkey) hfd
    cases other <;> exact hkept
  · exact ⟨rfl, fun {fd other} _ hfd => by cases other <;> exact hfd⟩

/-- **The queues after requests in turn**: they hold the same ESIs when every ESI that is
blocked is in its queue and is blocked once. -/
theorem coe_queues_blockInTurn {turns : List (Place × EsiSexpectingKey)}
    (hblock : blockInTurn state turns = some next)
    (honce : ((FirstCome.refused EsiSexpectingKey.key state.keys (turns.map Prod.snd)).map
      EsiSexpectingKey.esiFd).Nodup)
    (hplaces : ∀ turn ∈ turns, turn.2.esiFd ∈ (FirstCome.refused EsiSexpectingKey.key state.keys
      (turns.map Prod.snd)).map EsiSexpectingKey.esiFd →
        turn.2.esiFd ∈ state.queue (queueOf turn.1)) :
    (next.queues : Multiset ℤ) = state.queues := by
  induction turns generalizing state with
  | nil =>
      obtain rfl := Option.some.inj hblock
      rfl
  | cons turn turns ih =>
      obtain ⟨middle, hfirst, hrest⟩ := Option.bind_eq_some_iff.mp hblock
      have hkeys : FirstCome.refused EsiSexpectingKey.key middle.keys (turns.map Prod.snd) =
          FirstCome.refused EsiSexpectingKey.key (state.keys ++ [turn.2.key])
            (turns.map Prod.snd) :=
        FirstCome.refused_congr fun _ => (inTurn_blockByConsole hfirst).2.mem_keys_iff
      rw [List.map_cons, FirstCome.refused, ← hkeys] at honce hplaces
      by_cases hkey : turn.2.key ∈ state.keys
      · rw [if_pos hkey, List.map_cons] at honce hplaces
        obtain ⟨hnew, honce⟩ := List.nodup_cons.mp honce
        obtain ⟨hqueues, hkept⟩ := queues_blockByConsole hfirst fun _ =>
          hplaces turn List.mem_cons_self List.mem_cons_self
        refine (ih hrest honce fun other hother hrefused => ?_).trans hqueues
        exact hkept (fun _ heq => hnew (heq ▸ hrefused))
          (hplaces other (List.mem_cons_of_mem _ hother) (List.mem_cons_of_mem _ hrefused))
      · rw [if_neg hkey] at honce hplaces
        obtain ⟨hqueues, hkept⟩ := queues_blockByConsole hfirst fun hmem => absurd hmem hkey
        refine (ih hrest honce fun other hother hrefused => ?_).trans hqueues
        exact hkept (fun hmem => absurd hmem hkey)
          (hplaces other (List.mem_cons_of_mem _ hother) hrefused)

/-! ## The procedure -/

theorem WellFormed.not_mem_of_ready (hformed : WellFormed state) (hmem : fd ∈ state.ids)
    (hready : fd ∈ state.gReadyQueue) :
    fd ∉ state.gExecutionQueue ∧ fd ∉ state.gBlockedQueue := by
  have honce := hformed.once fd hmem
  rw [PlanificadorState.queues, List.count_append, List.count_append, List.count_append] at honce
  have hcount := List.count_pos_iff.mpr hready
  exact ⟨List.count_eq_zero.mp (by omega), List.count_eq_zero.mp (by omega)⟩

theorem WellFormed.not_mem_of_execution (hformed : WellFormed state) (hmem : fd ∈ state.ids)
    (hexecution : fd ∈ state.gExecutionQueue) :
    fd ∉ state.gReadyQueue ∧ fd ∉ state.gBlockedQueue := by
  have honce := hformed.once fd hmem
  rw [PlanificadorState.queues, List.count_append, List.count_append, List.count_append] at honce
  have hcount := List.count_pos_iff.mpr hexecution
  exact ⟨List.count_eq_zero.mp (by omega), List.count_eq_zero.mp (by omega)⟩

theorem of_executingRequest (hrequest : executingRequest state = some request) :
    state.gExecutionQueue.head? = some request.esiFd ∧
      ∃ before after, state.gNewBlockedByConsoleEsis = before ++ request :: after ∧
        ∀ earlier ∈ before, earlier.esiFd ≠ request.esiFd := by
  obtain ⟨executing, hhead, hfind⟩ := Option.bind_eq_some_iff.mp hrequest
  obtain ⟨hfd, before, after, hsplit, hnone⟩ := List.find?_eq_some_iff_append.mp hfind
  have hfd : request.esiFd = executing := of_decide_eq_true hfd
  exact ⟨hfd ▸ hhead, before, after, hsplit, fun earlier hmem => by
    simpa [hfd] using hnone earlier hmem⟩

theorem blockExecuting_eq (state : PlanificadorState config) :
    blockExecuting state =
      blockInTurn state ((executingRequest state).toList.map (Prod.mk .running)) := by
  cases hexecution : state.gExecutionQueue with
  | nil => simp [blockExecuting, executingRequest, hexecution, blockInTurn]
  | cons executing rest =>
      cases hfind : state.gNewBlockedByConsoleEsis.find? fun pending =>
          pending.esiFd = executing with
      | none => simp [blockExecuting, executingRequest, hexecution, hfind, blockInTurn]
      | some request =>
          simp [blockExecuting, executingRequest, hexecution, hfind, blockInTurn, queueOf]

theorem blockReady_eq (state : PlanificadorState config) (requests : List EsiSexpectingKey) :
    blockReady state requests = blockInTurn state (requests.map (Prod.mk .ready)) := by
  rw [blockReady, blockInTurn, List.foldlM_map]
  rfl

/-- The request about the executing ESI does not change which are about ready ones. -/
theorem WellFormed.readyRequests_blockExecuting (hformed : WellFormed state)
    (hblock : blockExecuting state = some next) : readyRequests next = readyRequests state := by
  rw [blockExecuting_eq] at hblock
  cases hrequest : executingRequest state with
  | none =>
      rw [hrequest] at hblock
      obtain rfl := Option.some.inj hblock
      rfl
  | some request =>
      rw [hrequest] at hblock
      obtain ⟨middle, hfirst, hrest⟩ := Option.bind_eq_some_iff.mp hblock
      obtain rfl := Option.some.inj hrest
      have hknown := (inTurn_blockByConsole hfirst).1
      have hexecution := List.mem_of_head? (of_executingRequest hrequest).1
      have hready := (hformed.not_mem_of_execution hknown hexecution).1
      obtain ⟨applied, rfl, -, happlied⟩ := of_blockByConsole hfirst
      have hsame : applied.gReadyQueue = state.gReadyQueue ∧
          applied.gNewBlockedByConsoleEsis = state.gNewBlockedByConsoleEsis := by
        obtain ⟨-, rfl⟩ | ⟨-, rfl⟩ := happlied
        · exact ⟨rfl, rfl⟩
        · exact ⟨rfl, rfl⟩
      rw [readyRequests, readyRequests, hsame.1, hsame.2]
      refine filter_eraseP_of_disjoint fun pending _ hfd => ?_
      rw [of_decide_eq_true hfd]
      simpa using hready

/-- The first two parts of the procedure are requests in turn. -/
theorem WellFormed.blockInTurn_turnsOf (hformed : WellFormed state) :
    blockInTurn state (turnsOf state) = (blockExecuting state).bind fun first =>
      blockReady first (readyRequests first) := by
  rw [blockInTurn, turnsOf, List.foldlM_append]
  cases hfirst : blockExecuting state with
  | none =>
      rw [blockExecuting_eq, blockInTurn] at hfirst
      rw [hfirst]
      rfl
  | some first =>
      rw [Option.bind_some, hformed.readyRequests_blockExecuting hfirst, blockReady_eq]
      rw [blockExecuting_eq, blockInTurn] at hfirst
      rw [hfirst]
      rfl

/-- The requests that are left over only let the system take free keys. -/
theorem exists_foldl_showEsiThatWasntBlocked (state : PlanificadorState config)
    (pending : List EsiSexpectingKey) :
    ∃ taken : List KeyBlocker, pending.foldl showEsiThatWasntBlocked state =
        { state with gLockedKeys := state.gLockedKeys ++ taken } ∧
      (∀ blocker ∈ taken, blocker.esiId = -1) ∧
      (state.keys.Nodup → ((state.gLockedKeys ++ taken).map KeyBlocker.key).Nodup) := by
  induction pending generalizing state with
  | nil =>
      refine ⟨[], ?_, fun _ hmem => absurd hmem List.not_mem_nil, fun hnodup => ?_⟩
      · rw [List.append_nil]
        rfl
      · rwa [List.append_nil]
  | cons request pending ih =>
      have hstep : showEsiThatWasntBlocked state request = state ∨ request.key ∉ state.keys ∧
          showEsiThatWasntBlocked state request =
            { state with gLockedKeys := state.gLockedKeys ++ [⟨request.key, -1⟩] } := by
        simp only [showEsiThatWasntBlocked]
        split
        · exact .inl rfl
        · split
          · exact .inl rfl
          · exact .inr ⟨fun hkey => absurd (mem_keys_iff.mp hkey) ‹_›, rfl⟩
      rw [List.foldl_cons]
      obtain hsame | ⟨hfree, hstep⟩ := hstep
      · rw [hsame]
        exact ih state
      · rw [hstep]
        obtain ⟨taken, hfold, hsystem, hnodup⟩ := ih
          { state with gLockedKeys := state.gLockedKeys ++ [⟨request.key, -1⟩] }
        refine ⟨⟨request.key, -1⟩ :: taken, ?_, List.forall_mem_cons.mpr ⟨rfl, hsystem⟩, ?_⟩
        · rw [hfold, List.append_assoc]
          rfl
        · intro hkeys
          rw [List.append_cons]
          refine hnodup ?_
          rw [PlanificadorState.keys, List.map_append]
          exact List.nodup_append'.mpr ⟨hkeys, List.nodup_singleton _,
            List.disjoint_singleton.mpr hfree⟩

/-- What the procedure leaves. -/
theorem WellFormed.of_blockByConsoleProcedure (hformed : WellFormed state)
    (hblock : blockByConsoleProcedure state = some next) :
    ∃ second taken, blockInTurn state (turnsOf state) = some second ∧
      next = { second with
        gLockedKeys := second.gLockedKeys ++ taken
        gNewBlockedByConsoleEsis := []
        blockEsiByConsoleFlag := false } ∧
      (∀ blocker ∈ taken, blocker.esiId = -1) ∧
      (second.keys.Nodup → ((second.gLockedKeys ++ taken).map KeyBlocker.key).Nodup) := by
  obtain ⟨first, second, hfirst, hsecond, rfl⟩ := Planificador.of_blockByConsoleProcedure hblock
  obtain ⟨taken, hfold, hsystem, hnodup⟩ :=
    exists_foldl_showEsiThatWasntBlocked second second.gNewBlockedByConsoleEsis
  refine ⟨second, taken, ?_, ?_, hsystem, hnodup⟩
  · rw [hformed.blockInTurn_turnsOf, hfirst, Option.bind_some, hsecond]
  · rw [hfold]

theorem WellFormed.exists_blockByConsoleProcedure (hformed : WellFormed state)
    (hknown : ∀ turn ∈ turnsOf state, turn.2.esiFd ∈ state.ids) :
    ∃ next, blockByConsoleProcedure state = some next := by
  obtain ⟨second, hsecond⟩ := exists_blockInTurn hknown
  rw [hformed.blockInTurn_turnsOf] at hsecond
  obtain ⟨first, hfirst, hsecond⟩ := Option.bind_eq_some_iff.mp hsecond
  refine Option.isSome_iff_exists.mp ?_
  simp [blockByConsoleProcedure, hfirst, hsecond]

end SockMyPort.Planificador
