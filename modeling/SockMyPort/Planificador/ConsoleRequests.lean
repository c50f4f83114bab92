/-
# Requests to block

`block_by_console_procedure` looks at the first request about the executing ESI, then at
the requests about ready ESIs, which it collects before it starts, and drops the rest. So
two requests can block one ESI twice, and a second request about the executing ESI is
dropped also when the first one did not block it.
-/

import SockMyPort.Planificador.BlockByConsole

namespace SockMyPort.Planificador

open SockMyPort.Commons Library

variable {config : Config} {state next : PlanificadorState config} {fd : ℤ}
  {request : EsiSexpectingKey} {before : List EsiSexpectingKey}

/-! ## The property -/

/-- A request that follows some others is the first about the first executing ESI. -/
def FirstOfExecuting (state : PlanificadorState config) (before : List EsiSexpectingKey)
    (request : EsiSexpectingKey) : Prop :=
  state.gExecutionQueue.head? = some request.esiFd ∧
    ∀ earlier ∈ before, earlier.esiFd ≠ request.esiFd

instance (state : PlanificadorState config) (before : List EsiSexpectingKey)
    (request : EsiSexpectingKey) : Decidable (FirstOfExecuting state before request) :=
  inferInstanceAs (Decidable (_ ∧ _))

/-- A request that follows some others is looked at. -/
def LookedAt (state : PlanificadorState config) (before : List EsiSexpectingKey)
    (request : EsiSexpectingKey) : Prop :=
  request.esiFd ∈ state.gReadyQueue ∨ FirstOfExecuting state before request

/-- The requests that are looked at before one that follows some others in the list. -/
def requestsBefore (state : PlanificadorState config) (before : List EsiSexpectingKey)
    (request : EsiSexpectingKey) : List EsiSexpectingKey :=
  if FirstOfExecuting state before request then []
  else (executingRequest state).toList ++
    before.filter fun pending => state.gReadyQueue.contains pending.esiFd

/-- The keys that are locked at the turn of a request that follows some others. -/
def keysAt (state : PlanificadorState config) (before : List EsiSexpectingKey)
    (request : EsiSexpectingKey) : List CString :=
  state.keys ++ (requestsBefore state before request).map EsiSexpectingKey.key

/-- One of some requests has blocked the ESI. -/
def AlreadyBlocked (state : PlanificadorState config) (before : List EsiSexpectingKey)
    (fd : ℤ) : Prop :=
  ∃ first earlier last, before = first ++ earlier :: last ∧ earlier.esiFd = fd ∧
    LookedAt state first earlier ∧ earlier.key ∈ keysAt state first earlier

/-- A request gave its ESI a key that was free, or left it blocked and waiting for one that
is locked. -/
def Served (state next : PlanificadorState config) (before : List EsiSexpectingKey)
    (request : EsiSexpectingKey) : Prop :=
  (request.key ∉ keysAt state before request ∧
      (⟨request.key, request.esiFd⟩ : KeyBlocker) ∈ next.gLockedKeys) ∨
    (request.esiFd ∈ next.gBlockedQueue ∧ request ∈ next.gEsisSexpectingKeys ∧
      request.key ∈ next.keys)

/-- What the procedure is meant to do. -/
structure BlocksWell (state next : PlanificadorState config) : Prop where
  empty : next.gNewBlockedByConsoleEsis = []
  wellFormed : WellFormed next
  served : ∀ before request after,
    state.gNewBlockedByConsoleEsis = before ++ request :: after →
      request.esiFd ∈ state.ids → request.esiFd ∈ state.gReadyQueue ++ state.gExecutionQueue →
        ¬ AlreadyBlocked state before request.esiFd → Served state next before request

/-! ## The condition -/

/-- The requests that the procedure can serve: those that it looks at are about registered
ESIs, those among them that find their key locked are about ESIs that wait for nothing yet,
and those about executing ESIs that it does not look at are about one that an earlier one
has blocked. -/
structure Serviceable (state : PlanificadorState config) : Prop where
  known : ∀ before request after,
    state.gNewBlockedByConsoleEsis = before ++ request :: after →
      LookedAt state before request → request.esiFd ∈ state.ids
  waitless : ∀ before request after,
    state.gNewBlockedByConsoleEsis = before ++ request :: after →
      LookedAt state before request → request.key ∈ keysAt state before request →
        (∀ sexpecting ∈ state.gEsisSexpectingKeys, sexpecting.esiFd ≠ request.esiFd) ∧
          ¬ AlreadyBlocked state before request.esiFd
  ignored : ∀ before request after,
    state.gNewBlockedByConsoleEsis = before ++ request :: after →
      request.esiFd ∈ state.ids → request.esiFd ∈ state.gExecutionQueue →
        ¬ LookedAt state before request → AlreadyBlocked state before request.esiFd

/-! ## The turns of the requests -/

/-- The requests that are looked at, in the order in which they are. -/
def requestsOf (state : PlanificadorState config) : List EsiSexpectingKey :=
  (executingRequest state).toList ++ readyRequests state

theorem map_snd_turnsOf (state : PlanificadorState config) :
    (turnsOf state).map Prod.snd = requestsOf state := by
  simp [turnsOf, requestsOf, List.map_map, Function.comp_def]

theorem executingRequest_of_first {after : List EsiSexpectingKey}
    (hsplit : state.gNewBlockedByConsoleEsis = before ++ request :: after)
    (hfirst : FirstOfExecuting state before request) :
    executingRequest state = some request := by
  refine Option.bind_eq_some_iff.mpr ⟨_, hfirst.1, ?_⟩
  refine List.find?_eq_some_iff_append.mpr ⟨decide_eq_true rfl, before, after, hsplit, ?_⟩
  intro earlier hmem
  simpa using hfirst.2 earlier hmem

/-- A request that is looked at has its turn after those before it. -/
theorem exists_turn_of_lookedAt {after : List EsiSexpectingKey}
    (hsplit : state.gNewBlockedByConsoleEsis = before ++ request :: after)
    (hlooked : LookedAt state before request) :
    ∃ later, requestsOf state = requestsBefore state before request ++ request :: later := by
  by_cases hfirst : FirstOfExecuting state before request
  · rw [requestsBefore, if_pos hfirst, requestsOf, executingRequest_of_first hsplit hfirst]
    exact ⟨_, rfl⟩
  · have hready := hlooked.resolve_right hfirst
    rw [requestsBefore, if_neg hfirst, requestsOf, readyRequests, hsplit, List.filter_append,
      List.filter_cons_of_pos (by simpa using hready), ← List.append_assoc]
    exact ⟨_, rfl⟩

/-- An element that is selected from a list, and what is selected before it. -/
theorem exists_split_of_filter {α : Type} {select : α → Bool} {list first last : List α} {a : α}
    (hfilter : list.filter select = first ++ a :: last) :
    ∃ before after, list = before ++ a :: after ∧ before.filter select = first ∧
      select a = true := by
  obtain ⟨start, rest, rfl, hstart, hrest⟩ := List.filter_eq_append_iff.mp hfilter
  obtain ⟨skipped, after, rfl, hskipped, hselected, -⟩ := List.filter_eq_cons_iff.mp hrest
  refine ⟨start ++ skipped, after, (List.append_assoc _ _ _).symm, ?_, hselected⟩
  rw [List.filter_append, hstart, List.filter_eq_nil_iff.mpr hskipped, List.append_nil]

/-- A request that has its turn is one of the list that is looked at. -/
theorem WellFormed.exists_split_of_turn (hformed : WellFormed state)
    {earlier later : List EsiSexpectingKey} (hknown : request.esiFd ∈ state.ids)
    (hturn : requestsOf state = earlier ++ request :: later) :
    ∃ before after, state.gNewBlockedByConsoleEsis = before ++ request :: after ∧
      LookedAt state before request ∧ requestsBefore state before request = earlier := by
  have hready : ∀ earlier, readyRequests state = earlier ++ request :: later →
      ∃ before after, state.gNewBlockedByConsoleEsis = before ++ request :: after ∧
        LookedAt state before request ∧
        requestsBefore state before request = (executingRequest state).toList ++ earlier := by
    intro earlier hfilter
    obtain ⟨before, after, hsplit, hbefore, hselected⟩ := exists_split_of_filter hfilter
    have hqueue : request.esiFd ∈ state.gReadyQueue := by simpa using hselected
    have hnot : ¬ FirstOfExecuting state before request := fun hexecuting =>
      (hformed.not_mem_of_ready hknown hqueue).1 (List.mem_of_head? hexecuting.1)
    refine ⟨before, after, hsplit, .inl hqueue, ?_⟩
    rw [requestsBefore, if_neg hnot, hbefore]
  cases hrequest : executingRequest state with
  | none =>
      rw [requestsOf, hrequest] at hturn
      obtain ⟨before, after, hsplit, hlooked, hbefore⟩ := hready earlier hturn
      rw [hrequest] at hbefore
      exact ⟨before, after, hsplit, hlooked, hbefore⟩
  | some executing =>
      rw [requestsOf, hrequest] at hturn
      cases earlier with
      | nil =>
          obtain ⟨rfl, -⟩ := List.cons.inj hturn
          obtain ⟨hhead, before, after, hsplit, hnone⟩ := of_executingRequest hrequest
          have hfirst : FirstOfExecuting state before executing := ⟨hhead, hnone⟩
          exact ⟨before, after, hsplit, .inr hfirst, if_pos hfirst⟩
      | cons head earlier =>
          obtain ⟨rfl, hlater⟩ := List.cons.inj hturn
          obtain ⟨before, after, hsplit, hlooked, hbefore⟩ := hready earlier hlater
          rw [hrequest] at hbefore
          exact ⟨before, after, hsplit, hlooked, hbefore⟩

/-- For a request that is looked at, an ESI that an earlier one blocked is the ESI of a
request refused before. -/
theorem WellFormed.alreadyBlocked_iff (hformed : WellFormed state)
    {after : List EsiSexpectingKey} (hknown : request.esiFd ∈ state.ids)
    (hsplit : state.gNewBlockedByConsoleEsis = before ++ request :: after)
    (hlooked : LookedAt state before request) :
    AlreadyBlocked state before request.esiFd ↔
      request.esiFd ∈ (FirstCome.refused EsiSexpectingKey.key state.keys
        (requestsBefore state before request)).map EsiSexpectingKey.esiFd := by
  by_cases hfirst : FirstOfExecuting state before request
  · rw [requestsBefore, if_pos hfirst]
    constructor
    · rintro ⟨first, earlier, last, rfl, hfd, -⟩
      exact absurd hfd (hfirst.2 earlier (List.mem_append_right _ List.mem_cons_self))
    · intro hmem
      cases hmem
  · have hready := hlooked.resolve_right hfirst
    have hexecution := (hformed.not_mem_of_ready hknown hready).1
    -- an earlier request about the ESI is about a ready one too
    have hnot : ∀ {first : List EsiSexpectingKey} {earlier : EsiSexpectingKey},
        earlier.esiFd = request.esiFd → ¬ FirstOfExecuting state first earlier :=
      fun hfd hexecuting => hexecution (hfd ▸ List.mem_of_head? hexecuting.1)
    rw [requestsBefore, if_neg hfirst]
    constructor
    · rintro ⟨first, earlier, last, rfl, hfd, -, hkey⟩
      rw [keysAt, requestsBefore, if_neg (hnot hfd)] at hkey
      rw [List.filter_append, List.filter_cons_of_pos (by simpa [hfd] using hready),
        ← List.append_assoc]
      exact List.mem_map.mpr ⟨earlier, FirstCome.mem_refused_of_mem hkey, hfd⟩
    · intro hmem
      obtain ⟨earlier, hrefused, hfd⟩ := List.mem_map.mp hmem
      obtain ⟨first, last, hturns, hkey⟩ := FirstCome.exists_split_of_mem_refused hrefused
      have hlater : ∃ start, first = (executingRequest state).toList ++ start ∧
          (before.filter fun pending => state.gReadyQueue.contains pending.esiFd) =
            start ++ earlier :: last := by
        cases hrequest : executingRequest state with
        | none =>
            rw [hrequest] at hturns
            exact ⟨first, rfl, hturns⟩
        | some executing =>
            rw [hrequest] at hturns
            cases first with
            | nil =>
                obtain ⟨rfl, -⟩ := List.cons.inj hturns
                have hhead := List.mem_of_head? (of_executingRequest hrequest).1
                exact absurd (hfd ▸ hhead) hexecution
            | cons head start =>
                obtain ⟨rfl, hstart⟩ := List.cons.inj hturns
                exact ⟨start, rfl, hstart⟩
      obtain ⟨start, rfl, hfilter⟩ := hlater
      obtain ⟨skipped, rest, hbefore, hskipped, -⟩ := exists_split_of_filter hfilter
      refine ⟨skipped, earlier, rest, hbefore, hfd, .inl (hfd ▸ hready), ?_⟩
      rwa [keysAt, requestsBefore, if_neg (hnot hfd), hskipped]

/-! ## What the property needs -/

/-- The requests that block their ESIs. -/
def blockersOf (state : PlanificadorState config) : List EsiSexpectingKey :=
  FirstCome.refused EsiSexpectingKey.key state.keys (requestsOf state)

/-- The nodes of an ESI. -/
def waitsOf (state : PlanificadorState config) (fd : ℤ) : ℕ :=
  state.gEsisSexpectingKeys.countP fun sexpecting => sexpecting.esiFd = fd

theorem waitsOf_inTurn (hturn : InTurn state next (requestsOf state)) (fd : ℤ) :
    waitsOf next fd = waitsOf state fd +
      (blockersOf state).countP fun blocker => blocker.esiFd = fd := by
  rw [waitsOf, hturn.waiting, List.countP_append]
  rfl

theorem mem_requestsOf_iff : request ∈ requestsOf state ↔
    executingRequest state = some request ∨ request ∈ readyRequests state := by
  rw [requestsOf, List.mem_append, Option.mem_toList]

theorem mem_of_mem_readyRequests (hmem : request ∈ readyRequests state) :
    request.esiFd ∈ state.gReadyQueue := by
  simpa using (List.mem_filter.mp hmem).2

/-- A request that blocks its ESI at its turn is the first node of the ESI. -/
theorem WellFormed.waitless_of_turn (hformed : WellFormed state)
    {after : List EsiSexpectingKey} (hturn : InTurn state next (requestsOf state))
    (hwaits : ∀ fd ∈ next.gBlockedQueue, waitsOf next fd = 1)
    (hknown : request.esiFd ∈ state.ids)
    (hsplit : state.gNewBlockedByConsoleEsis = before ++ request :: after)
    (hlooked : LookedAt state before request) (hkey : request.key ∈ keysAt state before request) :
    (∀ sexpecting ∈ state.gEsisSexpectingKeys, sexpecting.esiFd ≠ request.esiFd) ∧
      ¬ AlreadyBlocked state before request.esiFd := by
  obtain ⟨later, hrequests⟩ := exists_turn_of_lookedAt hsplit hlooked
  have hblockers : blockersOf state =
      FirstCome.refused EsiSexpectingKey.key state.keys (requestsBefore state before request) ++
        request :: FirstCome.refused EsiSexpectingKey.key
          (keysAt state before request ++ [request.key]) later := by
    rw [blockersOf, hrequests, FirstCome.refused_append, FirstCome.refused]
    exact congrArg _ (if_pos hkey)
  have hblocked : request.esiFd ∈ next.gBlockedQueue := by
    rw [hturn.blocked]
    refine List.mem_append_right _ (List.mem_map_of_mem ?_)
    rw [← blockersOf, hblockers]
    exact List.mem_append_right _ List.mem_cons_self
  have hone := hwaits _ hblocked
  rw [waitsOf_inTurn hturn, hblockers, List.countP_append,
    List.countP_cons_of_pos (by exact decide_eq_true rfl)] at hone
  have hnone : waitsOf state request.esiFd = 0 := by omega
  have hearlier : ((FirstCome.refused EsiSexpectingKey.key state.keys
      (requestsBefore state before request)).countP fun blocker =>
        blocker.esiFd = request.esiFd) = 0 := by omega
  rw [waitsOf, List.countP_eq_zero] at hnone
  rw [List.countP_eq_zero] at hearlier
  refine ⟨fun sexpecting hmem heq => hnone sexpecting hmem (decide_eq_true heq), ?_⟩
  rw [hformed.alreadyBlocked_iff hknown hsplit hlooked]
  intro hmem
  obtain ⟨blocker, hblocker, heq⟩ := List.mem_map.mp hmem
  exact hearlier blocker hblocker (decide_eq_true heq)

/-- The request about the executing ESI blocks it when its key is locked at the start. -/
theorem key_mem_of_mem_blockersOf (hexecuting : executingRequest state = some request)
    (hmem : request ∈ blockersOf state) (hnot : request ∉ readyRequests state) :
    request.key ∈ state.keys := by
  obtain ⟨first, last, hturns, hkey⟩ := FirstCome.exists_split_of_mem_refused hmem
  rw [requestsOf, hexecuting] at hturns
  cases first with
  | nil => simpa using hkey
  | cons head first =>
      obtain ⟨-, hlater⟩ := List.cons.inj hturns
      refine absurd ?_ hnot
      rw [show readyRequests state = first ++ request :: last from hlater]
      exact List.mem_append_right _ List.mem_cons_self

/-- A request about an executing ESI that is not looked at, and whose ESI no earlier one
blocked, is not served. -/
theorem WellFormed.not_served (hformed : WellFormed state) {taken : List KeyBlocker}
    {after : List EsiSexpectingKey} (hunknown : -1 ∉ state.ids)
    (hturn : InTurn state next (requestsOf state))
    (hlocked : ∀ blocker ∈ taken, blocker.esiId = -1)
    (hknown : request.esiFd ∈ state.ids) (hexecution : request.esiFd ∈ state.gExecutionQueue)
    (hsplit : state.gNewBlockedByConsoleEsis = before ++ request :: after)
    (hnot : ¬ LookedAt state before request)
    (hfirst : ¬ AlreadyBlocked state before request.esiFd) :
    ((⟨request.key, request.esiFd⟩ : KeyBlocker) ∈ next.gLockedKeys ++ taken →
        request.key ∈ keysAt state before request) ∧
      request.esiFd ∉ next.gBlockedQueue := by
  obtain ⟨hready, hblocked⟩ := hformed.not_mem_of_execution hknown hexecution
  have hnotFirst : ¬ FirstOfExecuting state before request := fun h => hnot (.inr h)
  -- a request about the ESI that is looked at is the first one about it
  have honly : ∀ other ∈ requestsOf state, other.esiFd = request.esiFd →
      executingRequest state = some other := by
    intro other hmem hfd
    exact (mem_requestsOf_iff.mp hmem).resolve_right fun hother =>
      hready (hfd ▸ mem_of_mem_readyRequests hother)
  refine ⟨fun hmem => ?_, fun hmem => ?_⟩
  · rcases List.mem_append.mp hmem with hmem | hmem
    · rw [hturn.locked] at hmem
      rcases List.mem_append.mp hmem with hmem | hmem
      · exact List.mem_append_left _ (List.mem_map.mpr ⟨_, hmem, rfl⟩)
      · obtain ⟨other, hother, heq⟩ := List.mem_map.mp hmem
        obtain ⟨hkey, hfd⟩ := KeyBlocker.mk.inj heq
        have hexecuting := honly other (FirstCome.mem_of_mem_granted hother) hfd
        refine List.mem_append_right _ (hkey ▸ List.mem_map_of_mem ?_)
        rw [requestsBefore, if_neg hnotFirst, hexecuting]
        exact List.mem_cons_self
    · exact absurd (hlocked _ hmem ▸ hknown) hunknown
  · rw [hturn.blocked] at hmem
    obtain ⟨other, hother, hfd⟩ :=
      List.mem_map.mp ((List.mem_append.mp hmem).resolve_left hblocked)
    have hexecuting := honly other (FirstCome.mem_of_mem_refused hother) hfd
    have hkey := key_mem_of_mem_blockersOf hexecuting hother fun hmem =>
      hready (hfd ▸ mem_of_mem_readyRequests hmem)
    obtain ⟨hhead, -⟩ := of_executingRequest hexecuting
    rw [hfd] at hhead
    cases hfind : before.find? fun pending => pending.esiFd = request.esiFd with
    | none =>
        refine hnotFirst ⟨hhead, fun earlier hmem => ?_⟩
        simpa using List.find?_eq_none.mp hfind earlier hmem
    | some earlier =>
        obtain ⟨hsame, start, last, rfl, hstart⟩ := List.find?_eq_some_iff_append.mp hfind
        have hsame : earlier.esiFd = request.esiFd := of_decide_eq_true hsame
        have hfirstOf : FirstOfExecuting state start earlier :=
          ⟨hsame ▸ hhead, fun pending hmem => by simpa [hsame] using hstart pending hmem⟩
        rw [List.append_assoc] at hsplit
        obtain rfl : earlier = other := Option.some.inj
          ((executingRequest_of_first hsplit hfirstOf).symm.trans hexecuting)
        refine hfirst ⟨start, earlier, last, rfl, hsame, .inr hfirstOf, ?_⟩
        exact List.mem_append_left _ hkey

theorem ids_of_turns (hknown : ∀ turn ∈ turnsOf state, turn.2.esiFd ∈ state.ids) :
    ∀ request ∈ requestsOf state, request.esiFd ∈ state.ids := by
  intro request hmem
  rw [← map_snd_turnsOf] at hmem
  obtain ⟨turn, hturn, rfl⟩ := List.mem_map.mp hmem
  exact hknown turn hturn

/-- When the procedure does what it is meant to do, its requests can be served. -/
theorem WellFormed.serviceable (hformed : WellFormed state) (hunknown : -1 ∉ state.ids)
    (hblock : blockByConsoleProcedure state = some next) (hwell : BlocksWell state next) :
    Serviceable state := by
  obtain ⟨second, taken, hturns, rfl, hsystem, -⟩ := hformed.of_blockByConsoleProcedure hblock
  obtain ⟨hknown, hturn⟩ := inTurn_blockInTurn hturns
  rw [map_snd_turnsOf] at hturn
  have hids : ∀ before request after,
      state.gNewBlockedByConsoleEsis = before ++ request :: after →
        LookedAt state before request → request.esiFd ∈ state.ids := by
    intro before request after hsplit hlooked
    obtain ⟨later, hrequests⟩ := exists_turn_of_lookedAt hsplit hlooked
    refine ids_of_turns hknown request ?_
    rw [hrequests]
    exact List.mem_append_right _ List.mem_cons_self
  refine ⟨hids, fun before request after hsplit hlooked hkey => ?_,
    fun before request after hsplit hmem hexecution hnot => ?_⟩
  · exact hformed.waitless_of_turn hturn hwell.wellFormed.waits
      (hids before request after hsplit hlooked) hsplit hlooked hkey
  · by_contra hfirst
    obtain ⟨hfree, hblocked⟩ := hformed.not_served hunknown hturn hsystem hmem hexecution hsplit
      hnot hfirst
    rcases hwell.served before request after hsplit hmem (List.mem_append_right _ hexecution)
      hfirst with ⟨hkey, hlocked⟩ | ⟨hmoved, -⟩
    · exact hkey (hfree hlocked)
    · exact hblocked hmoved

/-! ## What the condition gives -/

/-- Requests that can be served block every ESI at most once, and one that waits for
nothing. -/
theorem Serviceable.blockersOf (hserve : Serviceable state) (hformed : WellFormed state)
    (hknown : ∀ request ∈ requestsOf state, request.esiFd ∈ state.ids) :
    ((blockersOf state).map EsiSexpectingKey.esiFd).Nodup ∧
      ∀ blocker ∈ blockersOf state, waitsOf state blocker.esiFd = 0 := by
  constructor
  · refine FirstCome.nodup_refused fun earlier request later hrequests hkey => ?_
    have hmem := hknown request (by
      rw [hrequests]
      exact List.mem_append_right _ List.mem_cons_self)
    obtain ⟨before, after, hsplit, hlooked, rfl⟩ := hformed.exists_split_of_turn hmem hrequests
    rw [← hformed.alreadyBlocked_iff hmem hsplit hlooked]
    exact (hserve.waitless before request after hsplit hlooked hkey).2
  · intro blocker hblocker
    obtain ⟨earlier, later, hrequests, hkey⟩ := FirstCome.exists_split_of_mem_refused hblocker
    have hmem := hknown blocker (FirstCome.mem_of_mem_refused hblocker)
    obtain ⟨before, after, hsplit, hlooked, rfl⟩ := hformed.exists_split_of_turn hmem hrequests
    refine List.countP_eq_zero.mpr fun sexpecting hwait heq => ?_
    exact (hserve.waitless before blocker after hsplit hlooked hkey).1 sexpecting hwait
      (of_decide_eq_true heq)

/-- The requests that are looked at are about registered ESIs. -/
theorem Serviceable.known_turns (hserve : Serviceable state) :
    ∀ turn ∈ turnsOf state, turn.2.esiFd ∈ state.ids := by
  intro turn hturn
  rcases List.mem_append.mp hturn with hturn | hturn
  · obtain ⟨request, hrequest, rfl⟩ := List.mem_map.mp hturn
    obtain ⟨hhead, before, after, hsplit, hnone⟩ :=
      of_executingRequest (Option.mem_toList.mp hrequest)
    exact hserve.known before request after hsplit (.inr ⟨hhead, hnone⟩)
  · obtain ⟨request, hrequest, rfl⟩ := List.mem_map.mp hturn
    obtain ⟨before, after, hsplit⟩ := List.append_of_mem (List.mem_of_mem_filter hrequest)
    exact hserve.known before request after hsplit (.inl (mem_of_mem_readyRequests hrequest))

/-- Every request that has its turn is about an ESI in the queue of its part. -/
theorem mem_queue_of_mem_turnsOf {turn : Place × EsiSexpectingKey} (hmem : turn ∈ turnsOf state) :
    turn.2.esiFd ∈ state.queue (queueOf turn.1) := by
  rcases List.mem_append.mp hmem with hmem | hmem
  · obtain ⟨request, hrequest, rfl⟩ := List.mem_map.mp hmem
    exact List.mem_of_head? (of_executingRequest (Option.mem_toList.mp hrequest)).1
  · obtain ⟨request, hrequest, rfl⟩ := List.mem_map.mp hmem
    exact mem_of_mem_readyRequests hrequest

/-- The result is well formed. -/
theorem Serviceable.wellFormed (hserve : Serviceable state) (hformed : WellFormed state)
    (hblock : blockByConsoleProcedure state = some next) : WellFormed next := by
  obtain ⟨second, taken, hturns, rfl, hsystem, hnodup⟩ := hformed.of_blockByConsoleProcedure hblock
  obtain ⟨hknown, hturn⟩ := inTurn_blockInTurn hturns
  rw [map_snd_turnsOf] at hturn
  obtain ⟨hblockers, hwaits⟩ := hserve.blockersOf hformed (ids_of_turns hknown)
  have hqueues : (second.queues : Multiset ℤ) = state.queues := by
    refine coe_queues_blockInTurn hturns ?_ fun turn hmem _ => mem_queue_of_mem_turnsOf hmem
    rwa [map_snd_turnsOf]
  constructor
  · intro fd hmem
    have hsame : fd ∈ state.ids := hturn.ids ▸ hmem
    exact ((Multiset.coe_eq_coe.mp hqueues).count_eq fd).trans (hformed.once fd hsame)
  · refine hnodup ?_
    have hkeys : second.keys = state.keys ++ (FirstCome.granted EsiSexpectingKey.key state.keys
        (requestsOf state)).map EsiSexpectingKey.key := by
      rw [PlanificadorState.keys, hturn.locked, List.map_append, List.map_map]
      rfl
    rw [hkeys]
    exact List.nodup_append'.mpr ⟨hformed.locked, FirstCome.nodup_granted.1,
      fun key hold hnew => FirstCome.nodup_granted.2 key hnew hold⟩
  · intro fd hmem
    show waitsOf second fd = 1
    rw [waitsOf_inTurn hturn]
    have hcount : ((Planificador.blockersOf state).countP fun blocker => blocker.esiFd = fd) =
        ((Planificador.blockersOf state).map EsiSexpectingKey.esiFd).count fd := by
      rw [List.count, List.countP_map]
      exact List.countP_congr fun _ _ => by simp
    rw [hcount]
    by_cases hblocked : fd ∈ (Planificador.blockersOf state).map EsiSexpectingKey.esiFd
    · obtain ⟨blocker, hblocker, rfl⟩ := List.mem_map.mp hblocked
      rw [List.count_eq_one_of_mem hblockers hblocked, hwaits blocker hblocker]
    · have hold : fd ∈ state.gBlockedQueue := by
        have hqueue : fd ∈ second.gBlockedQueue := hmem
        rw [hturn.blocked] at hqueue
        exact (List.mem_append.mp hqueue).resolve_right hblocked
      rw [List.count_eq_zero.mpr hblocked]
      exact hformed.waits fd hold

/-- A request that is due is served. -/
theorem Serviceable.served (hserve : Serviceable state) (hformed : WellFormed state)
    (hblock : blockByConsoleProcedure state = some next) {after : List EsiSexpectingKey}
    (hsplit : state.gNewBlockedByConsoleEsis = before ++ request :: after)
    (hmem : request.esiFd ∈ state.ids)
    (hactive : request.esiFd ∈ state.gReadyQueue ++ state.gExecutionQueue)
    (hnot : ¬ AlreadyBlocked state before request.esiFd) : Served state next before request := by
  obtain ⟨second, taken, hturns, rfl, hsystem, -⟩ := hformed.of_blockByConsoleProcedure hblock
  obtain ⟨-, hturn⟩ := inTurn_blockInTurn hturns
  rw [map_snd_turnsOf] at hturn
  have hlooked : LookedAt state before request := by
    by_contra hskipped
    rcases List.mem_append.mp hactive with hready | hexecution
    · exact hskipped (.inl hready)
    · exact hnot (hserve.ignored before request after hsplit hmem hexecution hskipped)
  obtain ⟨later, hrequests⟩ := exists_turn_of_lookedAt hsplit hlooked
  by_cases hkey : request.key ∈ keysAt state before request
  · have hblocker : request ∈ Planificador.blockersOf state := by
      rw [Planificador.blockersOf, hrequests]
      exact FirstCome.mem_refused_of_mem hkey
    refine .inr ⟨?_, ?_, ?_⟩
    · show request.esiFd ∈ second.gBlockedQueue
      rw [hturn.blocked]
      exact List.mem_append_right _ (List.mem_map_of_mem hblocker)
    · show request ∈ second.gEsisSexpectingKeys
      rw [hturn.waiting]
      exact List.mem_append_right _ hblocker
    · have hlocked : request.key ∈ second.keys := by
        rw [hturn.mem_keys_iff, hrequests, List.map_append, List.map_cons]
        exact List.mem_append_right _ (List.mem_append_right _ List.mem_cons_self)
      rw [PlanificadorState.keys, List.map_append]
      exact List.mem_append_left _ hlocked
  · refine .inl ⟨hkey, List.mem_append_left _ ?_⟩
    rw [hturn.locked, hrequests]
    exact List.mem_append_right _ (List.mem_map.mpr
      ⟨request, FirstCome.mem_granted_of_not_mem hkey, rfl⟩)

/-! ## The result -/

/-- **The procedure does what it is meant to do exactly when it can serve its requests.** -/
theorem blockByConsoleProcedure_iff (hformed : WellFormed state) (hunknown : -1 ∉ state.ids) :
    (∃ next, blockByConsoleProcedure state = some next ∧ BlocksWell state next) ↔
      Serviceable state := by
  constructor
  · rintro ⟨next, hblock, hwell⟩
    exact hformed.serviceable hunknown hblock hwell
  · intro hserve
    obtain ⟨next, hblock⟩ := hformed.exists_blockByConsoleProcedure hserve.known_turns
    refine ⟨next, hblock, ?_, hserve.wellFormed hformed hblock,
      fun _ _ _ hsplit hmem hactive hnot => hserve.served hformed hblock hsplit hmem hactive hnot⟩
    obtain ⟨second, taken, -, rfl, -, -⟩ := hformed.of_blockByConsoleProcedure hblock
    rfl

/-- ESI `10` is ready, ESI `11` executes and the system has taken both keys. -/
def requestedState (requests : List EsiSexpectingKey) :
    PlanificadorState (smallConfig .fifo) :=
  { PlanificadorState.init (smallConfig .fifo) with
    gEsiBursts := [createEsiInformation _ 10 1, createEsiInformation _ 11 2]
    gReadyQueue := [10]
    gExecutionQueue := [11]
    connectedFds := [10, 11]
    executingEsi := 11
    gLockedKeys := [⟨keyK, -1⟩, ⟨keyJ, -1⟩]
    gNewBlockedByConsoleEsis := requests
    blockEsiByConsoleFlag := true }

theorem wellFormed_requestedState (requests : List EsiSexpectingKey) :
    WellFormed (requestedState requests) where
  once := show ∀ fd ∈ ([10, 11] : List ℤ), ([10, 11] : List ℤ).count fd = 1 by decide
  locked := show [keyK, keyJ].Nodup by decide
  waits _ hmem := absurd hmem List.not_mem_nil

/-- One request about the ready ESI blocks it. -/
theorem blockByConsoleProcedure_requestedState :
    ∃ next, blockByConsoleProcedure (requestedState [⟨10, keyK⟩]) = some next ∧
      BlocksWell (requestedState [⟨10, keyK⟩]) next := by
  have honly : ∀ {before request after}, (requestedState [⟨10, keyK⟩]).gNewBlockedByConsoleEsis =
      before ++ request :: after → before = [] ∧ request = ⟨10, keyK⟩ := by
    intro before request after hsplit
    cases before with
    | nil => exact ⟨rfl, (List.cons.inj hsplit).1.symm⟩
    | cons head before =>
        have hlength := congrArg List.length (List.cons.inj hsplit).2
        simp at hlength
  refine (blockByConsoleProcedure_iff (wellFormed_requestedState _) (by decide)).mpr ⟨?_, ?_, ?_⟩
  · intro before request after hsplit _
    obtain ⟨-, rfl⟩ := honly hsplit
    decide
  · intro before request after hsplit _ _
    obtain ⟨rfl, rfl⟩ := honly hsplit
    refine ⟨fun _ hmem => absurd hmem List.not_mem_nil, ?_⟩
    rintro ⟨first, earlier, last, hnone, -⟩
    cases first <;> cases hnone
  · intro before request after hsplit _ hexecution
    obtain ⟨-, rfl⟩ := honly hsplit
    exact absurd hexecution (by decide)

/-- Two requests about the ready ESI block it twice. -/
theorem not_blocksWell : ¬ ∀ (config : Config) (state : PlanificadorState config),
    WellFormed state → -1 ∉ state.ids →
      ∃ next, blockByConsoleProcedure state = some next ∧ BlocksWell state next := by
  intro hclaim
  obtain ⟨next, hblock, hwell⟩ := hclaim _ (requestedState [⟨10, keyK⟩, ⟨10, keyJ⟩])
    (wellFormed_requestedState _) (by decide)
  have hcheck : (blockByConsoleProcedure (requestedState [⟨10, keyK⟩, ⟨10, keyJ⟩])).any
      (fun next => next.gBlockedQueue.contains 10 &&
        decide ((next.gEsisSexpectingKeys.countP fun sexpecting => sexpecting.esiFd = 10) = 2)) =
      true := by decide
  rw [hblock, Option.any_some, Bool.and_eq_true] at hcheck
  have hone := hwell.wellFormed.waits 10 (by simpa using hcheck.1)
  rw [of_decide_eq_true hcheck.2] at hone
  cases hone

end SockMyPort.Planificador
