/-
# One reply for each request

A request that is queued has visited the instances that it excludes, each of them once,
and the key is assigned to the instance where it is queued. The list of excluded
instances grows with every visit, so that the visits come to an end; then there is one
reply and the node is destroyed.
-/

import SockMyPort.Coordinador.Requests
import Mathlib.Data.Finset.Card

namespace SockMyPort.Coordinador

open SockMyPort.Commons Library

variable {setup : Setup} {tables : Tables} {key : CString} {node first : InstanceRef}
  {request : RequestNode} {fd : ℤ} {type : RequestType} {start travel finish : Travel}
  {events : List TravelEvent}

/-! ## What a visit does -/

/-- The table of a key that is kept by a step that marks an instance as disconnected. -/
@[simp]
theorem keyTableGet_instanceListRemove (name : CString) :
    keyTableGet (instanceListRemove tables name) key = keyTableGet tables key := by
  rw [instanceListRemove]
  split <;> rfl

@[simp]
theorem instanceListRemove_instanceList (name : CString) :
    (instanceListRemove tables name).instanceList = tables.instanceList := by
  rw [instanceListRemove]
  split <;> rfl

theorem keyTableGet_keyTableSetInitialized
    (hassigned : keyTableGetInstance tables key = some node) :
    keyTableGet (keyTableSetInitialized tables key) key = some ⟨true, some node⟩ := by
  obtain ⟨data, hdata, hnode⟩ := Option.bind_eq_some_iff.mp hassigned
  rw [keyTableSetInitialized, hdata, ← hnode]
  exact keyTableGet_keyTablePut_self

/-- A SET is answered with success on the table where the key is initialized, or the key
is removed; in the latter case the request is answered with an error or it is dispatched
again. -/
inductive SetHandling (setup : Setup) (tables : Tables) (node : InstanceRef)
    (request : RequestNode) : Handled → Prop
  | done (usedEntries : ℕ) : SetHandling setup tables node request
      (answer (keyTableSetInitialized (setUsedEntries tables node usedEntries) request.key) request
        .everythingOk true)
  | replaced (usedEntries : ℕ) : SetHandling setup tables node request
      (answer (keyTableRemove (setUsedEntries tables node usedEntries) request.key) request
        .illegalOperation true)
  | failed (left : Tables) (success : Bool) (hlist : left.instanceList = tables.instanceList) :
      SetHandling setup tables node request
        (instanceDispatchFailedSet setup (keyTableRemove left request.key) node request success)

theorem setHandling (setup : Setup) (tables : Tables) (node : InstanceRef) (request : RequestNode)
    (outcome : Outcome) :
    SetHandling setup tables node request
      (instanceHandleSetRequest setup tables node request outcome) := by
  cases outcome with
  | sendFailure => exact .failed tables false rfl
  | recvFailure => exact .failed tables false rfl
  | status code usedEntries =>
      simp only [instanceHandleSetRequest]
      split
      · exact .done usedEntries
      · split
        · exact .replaced usedEntries
        · exact .failed (setUsedEntries tables node usedEntries) _ rfl

/-- A STORE is answered at once. -/
theorem storeHandling (tables : Tables) (request : RequestNode) (outcome : Outcome) :
    ∃ left notices reply success, left.instanceList = tables.instanceList ∧
      notices.Sublist [Effect.unblocked request.key] ∧
      instanceHandleStoreRequest tables request outcome =
        ⟨left, none, notices ++ [.replied request.requestingEsiFd reply, .destroyed], success⟩ := by
  cases outcome with
  | sendFailure => exact ⟨keyTableRemove tables request.key, [], .illegalOperation, false, rfl,
      List.nil_sublist _, rfl⟩
  | recvFailure => exact ⟨keyTableRemove tables request.key, [], .illegalOperation, false, rfl,
      List.nil_sublist _, rfl⟩
  | status code _ =>
      simp only [instanceHandleStoreRequest]
      split
      · exact ⟨tables, _, .everythingOk, true, rfl, List.Sublist.refl _, rfl⟩
      · exact ⟨keyTableRemove tables request.key, [], .illegalOperation, decide (code = 0), rfl,
          List.nil_sublist _, rfl⟩

/-- Without an entry for the key a policy chooses. -/
theorem choice_dispatch_of_removed (setup : Setup) (excluded : List InstanceRef)
    (hremoved : keyTableGet tables key = none) :
    Choice tables key excluded (dispatch setup tables key excluded) := by
  have hunassigned : keyTableGetInstance tables key = none := by
    rw [keyTableGetInstance, hremoved, Option.bind_none]
  rw [dispatch, hunassigned]
  exact choice_distribute setup tables key excluded

/-! ## The invariant -/

/-- The turns of the threads of instances. -/
def visit : TravelEvent → ℕ
  | .handle _ _ => 1
  | .others _ => 0

/-- A request that has visited the instances that it excludes is queued on another one,
which has the key. -/
structure OnItsWay (instances : List InstanceRef) (first : InstanceRef) (fd : ℤ)
    (type : RequestType) (key : CString) (visits : ℕ) (travel : Travel) (node : InstanceRef)
    (request : RequestNode) : Prop where
  queued : travel.queued = some (node, request)
  esi : request.requestingEsiFd = fd
  sameType : request.type = type
  sameKey : request.key = key
  effects : travel.effects = request.excludedInstances.map .instruction
  visits : visits = request.excludedInstances.length
  nodup : (request.excludedInstances ++ [node]).Nodup
  known : request.excludedInstances ++ [node] ⊆ first :: instances
  perm : travel.tables.instanceList.Perm instances
  assigned : keyTableGetInstance travel.tables key = some node

/-- What the key table says of the key of a SET after the reply. -/
def Recorded (tables : Tables) (key : CString) (visited : List InstanceRef) : Reply → Prop
  | .everythingOk => ∃ node, visited.getLast? = some node ∧
      keyTableGet tables key = some ⟨true, some node⟩
  | .illegalOperation => keyTableGet tables key = none

/-- A request that was answered: `notices` is what was done between the last instruction
and the reply. -/
structure Answered (instances : List InstanceRef) (first : InstanceRef) (fd : ℤ)
    (type : RequestType) (key : CString) (visits : ℕ) (travel : Travel)
    (visited : List InstanceRef) (notices : List Effect) (reply : Reply) : Prop where
  queued : travel.queued = none
  effects : travel.effects =
    visited.map .instruction ++ (notices ++ [.replied fd reply, .destroyed])
  notices : notices.Sublist [.unblocked key]
  visits : visits ≤ instances.length + 1
  nodup : visited.Nodup
  recorded : ∀ value, type = .set value → Recorded travel.tables key visited reply

/-- A request is on its way or answered. -/
inductive Way (instances : List InstanceRef) (first : InstanceRef) (fd : ℤ) (type : RequestType)
    (key : CString) (visits : ℕ) (travel : Travel) : Prop
  | onItsWay {node : InstanceRef} {request : RequestNode}
      (hway : OnItsWay instances first fd type key visits travel node request)
  | answered {visited : List InstanceRef} {notices : List Effect} {reply : Reply}
      (hanswered : Answered instances first fd type key visits travel visited notices reply)

variable {instances visited : List InstanceRef} {visits : ℕ}

/-- The instances that a request visits are different instances of the list, or the one
that had the key. -/
theorem OnItsWay.visits_le
    (hway : OnItsWay instances first fd type key visits travel node request) :
    visits + 1 ≤ instances.length + 1 := by
  have hlength := (List.subperm_of_subset hway.nodup hway.known).length_le
  simpa [hway.visits] using hlength

/-- Others do not change what is known of a request. -/
theorem Way.others {left : Tables}
    (hway : Way instances first fd type key visits travel)
    (hleaves : LeavesKey key travel (.others left)) :
    Way instances first fd type key visits { travel with tables := left } := by
  obtain ⟨hkey, hperm⟩ := hleaves
  cases hway with
  | onItsWay hway =>
      apply Way.onItsWay
      exact { hway with
        perm := hperm.trans hway.perm
        assigned := by
          rw [keyTableGetInstance, hkey]
          exact hway.assigned }
  | answered hanswered =>
      apply Way.answered
      exact { hanswered with
        recorded := fun value htype => by
          have hrecorded := hanswered.recorded value htype
          rename_i reply
          cases reply with
          | everythingOk =>
              obtain ⟨node, hlast, hget⟩ := hrecorded
              exact ⟨node, hlast, hkey.trans hget⟩
          | illegalOperation => exact hkey.trans hrecorded }

/-- The tables after a turn, with the instance marked as disconnected or not. -/
theorem keyTableGet_marked (condition : Bool) (name : CString) :
    keyTableGet (if condition then tables else instanceListRemove tables name) key =
      keyTableGet tables key := by
  split
  · rfl
  · exact keyTableGet_instanceListRemove name

theorem instanceList_marked (condition : Bool) (name : CString) :
    (if condition then tables else instanceListRemove tables name).instanceList =
      tables.instanceList := by
  split
  · rfl
  · exact instanceListRemove_instanceList name

theorem Recorded.marked {reply : Reply} (condition : Bool) (name : CString)
    (hrecorded : Recorded tables key visited reply) :
    Recorded (if condition then tables else instanceListRemove tables name) key visited reply := by
  cases reply <;> simpa only [Recorded, keyTableGet_marked] using hrecorded

/-- The reply to a SET after the visit of an instance. -/
theorem OnItsWay.answered
    (hway : OnItsWay instances first fd type key visits travel node request) (reply : Reply)
    (hrecorded : Recorded tables key (request.excludedInstances ++ [node]) reply) :
    Answered instances first fd type key (visits + 1)
      ⟨tables, none, travel.effects ++ (.instruction node :: [.replied fd reply, .destroyed])⟩
      (request.excludedInstances ++ [node]) [] reply where
  queued := rfl
  effects := by simp [hway.effects]
  notices := List.nil_sublist _
  visits := hway.visits_le
  nodup := hway.nodup
  recorded _ _ := hrecorded

/-- A SET that was dispatched again. -/
theorem OnItsWay.dispatched {left next : Tables} {other : InstanceRef}
    (hway : OnItsWay instances first fd type key visits travel node request)
    (hperm : left.instanceList.Perm instances)
    (hchooses : Chooses left request.key (request.excludedInstances ++ [node]) other next)
    (condition : Bool) (name : CString) :
    OnItsWay instances first fd type key (visits + 1)
      ⟨if condition then next else instanceListRemove next name,
        some (other, { request with excludedInstances := request.excludedInstances ++ [node] }),
        travel.effects ++ [.instruction node]⟩
      other { request with excludedInstances := request.excludedInstances ++ [node] } where
  queued := rfl
  esi := hway.esi
  sameType := hway.sameType
  sameKey := hway.sameKey
  effects := by simp [hway.effects]
  visits := by simp [hway.visits]
  nodup := by
    have hfresh := (instanceIsAvailable_iff.mp hchooses.available).1
    exact List.nodup_append.mpr ⟨hway.nodup, List.nodup_singleton other, fun visited hvisited last
      hlast heq => hfresh (List.mem_singleton.mp hlast ▸ heq ▸ hvisited)⟩
  known := by
    intro visited hvisited
    rcases List.mem_append.mp hvisited with hbefore | hlast
    · exact hway.known hbefore
    · apply List.mem_cons_of_mem
      rw [List.mem_singleton.mp hlast]
      exact hperm.mem_iff.mp hchooses.member
  perm := by
    rw [instanceList_marked]
    exact hchooses.perm.trans hperm
  assigned := by
    rw [keyTableGetInstance, keyTableGet_marked, ← hway.sameKey]
    exact hchooses.assigned

/-! ## Steps and runs -/

/-- What a turn makes of a request that is on its way. -/
theorem travelStep_handle (hqueued : travel.queued = some (node, request)) (outcome : Outcome)
    (reconnected : Bool) :
    travelStep setup travel (.handle outcome reconnected) =
      let handled := handleRequest setup travel.tables node request outcome
      some ⟨if handled.success || reconnected then handled.tables
          else instanceListRemove handled.tables (handled.tables.nodes node).name,
        handled.queued, travel.effects ++ handled.effects⟩ := by
  rw [travelStep, hqueued]
  rfl

/-- An instance visited by a SET. -/
theorem Way.handle_set {value : CString} {next : Travel}
    (hway : OnItsWay instances first fd (.set value) key visits travel node request)
    (outcome : Outcome) (reconnected : Bool)
    (hstep : travelStep setup travel (.handle outcome reconnected) = some next) :
    Way instances first fd (.set value) key (visits + 1) next := by
  rw [travelStep_handle hway.queued, handleRequest, hway.sameType] at hstep
  have hhandling := setHandling setup travel.tables node request outcome
  revert hstep hhandling
  generalize instanceHandleSetRequest setup travel.tables node request outcome = handled
  intro hstep hhandling
  cases hstep
  cases hhandling with
  | done usedEntries =>
      rw [answer, hway.esi, hway.sameKey]
      apply Way.answered
      apply hway.answered
      apply Recorded.marked
      exact ⟨node, List.getLast?_concat, keyTableGet_keyTableSetInitialized hway.assigned⟩
  | replaced usedEntries =>
      rw [answer, hway.esi, hway.sameKey]
      apply Way.answered
      apply hway.answered
      apply Recorded.marked
      exact keyTableGet_keyTableRemove
  | failed left success hlist =>
      have hperm : (keyTableRemove left request.key).instanceList.Perm instances := by
        rw [keyTableRemove, keyTablePut_instanceList, hlist]
        exact hway.perm
      have hchoice := choice_dispatch_of_removed setup (request.excludedInstances ++ [node])
        (@keyTableGet_keyTableRemove left request.key)
      rw [instanceDispatchFailedSet]
      revert hchoice
      generalize dispatch setup (keyTableRemove left request.key) request.key
        (request.excludedInstances ++ [node]) = result
      intro hchoice
      cases hchoice with
      | nobody hnobody =>
          simp only [answer, hway.esi]
          apply Way.answered
          apply hway.answered
          apply Recorded.marked
          rw [Recorded, keyTableGet, hnobody.keyTable, ← hway.sameKey]
          exact keyTableGet_keyTableRemove
      | somebody hchooses => exact .onItsWay (hway.dispatched hperm hchooses _ _)

/-- An instance visited by a STORE. -/
theorem Way.handle_store {next : Travel}
    (hway : OnItsWay instances first fd .store key visits travel node request)
    (outcome : Outcome) (reconnected : Bool)
    (hstep : travelStep setup travel (.handle outcome reconnected) = some next) :
    Way instances first fd .store key (visits + 1) next := by
  rw [travelStep_handle hway.queued, handleRequest, hway.sameType] at hstep
  dsimp only at hstep
  by_cases hnew : keyTableIsNew travel.tables request.key
  · -- the instance is not asked
    rw [if_pos hnew] at hstep
    cases hstep
    refine .answered (?_ : Answered instances first fd .store key (visits + 1) _
      request.excludedInstances [] .illegalOperation)
    exact {
      queued := rfl
      effects := by simp [answer, hway.effects, hway.esi]
      notices := List.nil_sublist _
      visits := hway.visits_le
      nodup := hway.nodup.of_append_left
      recorded := fun value htype => by cases htype }
  · obtain ⟨left, notices, reply, success, -, hnotices, hhandled⟩ :=
      storeHandling travel.tables request outcome
    rw [if_neg hnew, hhandled] at hstep
    cases hstep
    refine .answered (?_ : Answered instances first fd .store key (visits + 1) _
      (request.excludedInstances ++ [node]) notices reply)
    exact {
      queued := rfl
      effects := by simp [hway.effects, hway.esi]
      notices := hway.sameKey ▸ hnotices
      visits := hway.visits_le
      nodup := hway.nodup
      recorded := fun value htype => by cases htype }

/-- **One step.** -/
theorem Way.step {event : TravelEvent} {next : Travel}
    (hway : Way instances first fd type key visits travel) (hleaves : LeavesKey key travel event)
    (hstep : travelStep setup travel event = some next) :
    Way instances first fd type key (visits + visit event) next := by
  cases event with
  | others left =>
      cases hstep
      exact hway.others hleaves
  | handle outcome reconnected =>
      cases hway with
      | answered hanswered =>
          rw [travelStep, hanswered.queued] at hstep
          cases hstep
      | onItsWay hway =>
          cases type with
          | set value => exact Way.handle_set hway outcome reconnected hstep
          | store => exact Way.handle_store hway outcome reconnected hstep

/-- A key that has got a connected instance stays there. -/
theorem dispatch_spec (hdispatch : (dispatch setup tables key []).1 = some node) :
    (dispatch setup tables key []).2.instanceList.Perm tables.instanceList ∧
      keyTableGetInstance (dispatch setup tables key []).2 key = some node := by
  rw [dispatch] at hdispatch ⊢
  cases hget : keyTableGetInstance tables key with
  | none =>
      rw [hget] at hdispatch
      have hchoice := choice_distribute setup tables key []
      exact ⟨hchoice.perm, (hchoice.chosen node hdispatch).2.2.2⟩
  | some assigned =>
      rw [hget] at hdispatch
      simp only at hdispatch ⊢
      split at hdispatch
      · rw [if_pos ‹_›]
        cases hdispatch
        exact ⟨.refl _, hget⟩
      · rw [if_neg ‹_›]
        have hchoice := choice_distribute setup (keyTableRemove tables key) key []
        exact ⟨hchoice.perm, (hchoice.chosen node hdispatch).2.2.2⟩

/-- **The beginning.** -/
theorem exists_way_queueRequest (hqueue : queueRequest setup tables fd type key = some start) :
    ∃ first, Way tables.instanceList first fd type key 0 start := by
  have hspec := @dispatch_spec setup tables key
  rw [queueRequest] at hqueue
  revert hqueue hspec
  generalize dispatch setup tables key [] = result
  obtain ⟨chosen, dispatched⟩ := result
  intro hqueue hspec
  cases chosen with
  | none => cases hqueue
  | some node =>
      cases hqueue
      obtain ⟨hperm, hassigned⟩ := hspec rfl
      refine ⟨node, .onItsWay (?_ : OnItsWay _ _ _ _ _ _ _ node ⟨fd, type, key, []⟩)⟩
      exact {
        queued := rfl
        esi := rfl
        sameType := rfl
        sameKey := rfl
        effects := rfl
        visits := rfl
        nodup := List.nodup_singleton node
        known := List.cons_subset_cons node (List.nil_subset _)
        perm := hperm
        assigned := hassigned }

/-! ## The result -/

/-- The instances to which the instruction was sent, in order. -/
def instructed (effects : List Effect) : List InstanceRef :=
  effects.filterMap fun
    | .instruction node => some node
    | _ => none

/-- Whether the ESI or the memory of the node are concerned. -/
def Effect.Concludes : Effect → Prop
  | .replied _ _ | .destroyed => True
  | _ => False

/-- One reply for each request, and bounded retries. -/
structure OneReply (setup : Setup) (tables : Tables) (fd : ℤ) (type : RequestType)
    (key : CString) (events : List TravelEvent) (finish : Travel) : Prop where
  /-- No instance is instructed twice. -/
  once : (instructed finish.effects).Nodup
  /-- The visits are not more than the instances, and the one that had the key. -/
  bounded : (events.map visit).sum ≤ tables.instanceList.length + 1
  /-- A queued request can always be handled. -/
  progress : finish.queued ≠ none → ∀ outcome reconnected,
    (travelStep setup finish (.handle outcome reconnected)).isSome
  /-- Nothing is concluded before the end. -/
  pending : finish.queued ≠ none → ∀ effect ∈ finish.effects, ¬ effect.Concludes
  /-- In the end there is one reply, and the node is destroyed right after. -/
  ended : finish.queued = none → ∃ before reply,
    finish.effects = before ++ [.replied fd reply, .destroyed] ∧
      (∀ effect ∈ before, ¬ effect.Concludes) ∧
      ∀ value, type = .set value → Recorded finish.tables key (instructed before) reply

theorem instructed_map_append (visited : List InstanceRef) (notices : List Effect) :
    instructed (visited.map .instruction ++ notices) = visited ++ instructed notices := by
  induction visited with
  | nil => rfl
  | cons node visited ih => exact congrArg (node :: ·) ih

theorem not_concludes_of_mem_instructions {effect : Effect}
    (hmem : effect ∈ visited.map Effect.instruction) : ¬ effect.Concludes := by
  obtain ⟨node, -, rfl⟩ := List.mem_map.mp hmem
  exact id

/-- What a STORE does before the reply instructs nobody and concludes nothing. -/
theorem notices_cases {notices : List Effect} (hnotices : notices.Sublist [.unblocked key]) :
    instructed notices = [] ∧ ∀ effect ∈ notices, ¬ effect.Concludes := by
  rcases List.sublist_singleton.mp hnotices with rfl | rfl
  · exact ⟨rfl, fun effect heffect => absurd heffect List.not_mem_nil⟩
  · refine ⟨rfl, fun effect heffect => ?_⟩
    rw [List.mem_singleton.mp heffect]
    exact id

theorem Way.oneReply
    (hway : Way tables.instanceList first fd type key (events.map visit).sum finish) :
    OneReply setup tables fd type key events finish := by
  cases hway with
  | onItsWay hway =>
      rename_i node request
      have hqueued : finish.queued ≠ none := by simp [hway.queued]
      have hinstructed := instructed_map_append request.excludedInstances []
      rw [List.append_nil, ← hway.effects] at hinstructed
      exact {
        once := by
          rw [hinstructed]
          exact List.Nodup.of_append_left (by simpa [instructed] using hway.nodup)
        bounded := (Nat.le_succ _).trans hway.visits_le
        progress := fun _ outcome reconnected => by rw [travelStep_handle hway.queued]; rfl
        pending := fun _ effect heffect =>
          not_concludes_of_mem_instructions (hway.effects ▸ heffect)
        ended := fun hnone => absurd hnone hqueued }
  | answered hanswered =>
      rename_i visited notices reply
      obtain ⟨hnobody, hopen⟩ := notices_cases hanswered.notices
      have hinstructed := instructed_map_append visited notices
      rw [hnobody, List.append_nil] at hinstructed
      have hlast : instructed (notices ++ [.replied fd reply, .destroyed]) = [] := by
        rw [instructed, List.filterMap_append]
        simpa [instructed] using hnobody
      exact {
        once := by
          rw [hanswered.effects, instructed_map_append, hlast, List.append_nil]
          exact hanswered.nodup
        bounded := hanswered.visits
        progress := fun hqueued => absurd hanswered.queued hqueued
        pending := fun hqueued => absurd hanswered.queued hqueued
        ended := fun _ => by
          refine ⟨visited.map .instruction ++ notices, reply, ?_, ?_, fun value htype => ?_⟩
          · rw [hanswered.effects, List.append_assoc]
          · intro effect heffect
            rcases List.mem_append.mp heffect with hinstruction | hnotice
            · exact not_concludes_of_mem_instructions hinstruction
            · exact hopen effect hnotice
          · rw [hinstructed]
            exact hanswered.recorded value htype }

/-- **One reply for each request.** -/
theorem oneReply_of_runs (hqueue : queueRequest setup tables fd type key = some start)
    (hrun : (travelStep setup).Runs (LeavesKey key) start events finish) :
    OneReply setup tables fd type key events finish := by
  obtain ⟨first, hway⟩ := exists_way_queueRequest hqueue
  have hfinish := hrun.invariant_sum visit (Way tables.instanceList first fd type key)
    (fun hway hok hstep => hway.step hok hstep) hway
  rw [Nat.zero_add] at hfinish
  exact hfinish.oneReply

/-- Two instances are connected, and no key was created. -/
def twoInstances : Tables where
  nodes node := if node = 0 then ⟨[], 5, 0⟩ else ⟨[⟨97, by decide⟩], 6, 0⟩
  instanceList := [0, 1]
  keyTable _ := none

/-- The first instance has no space, the second one stores the value. -/
theorem oneReply_of_runs_twice :
    ∃ start finish events,
      queueRequest ⟨.el, insertionListSort⟩ twoInstances 9 (.set []) [] = some start ∧
        (travelStep ⟨.el, insertionListSort⟩).Runs (LeavesKey []) start events finish ∧
          finish.effects = [.instruction 0, .instruction 1, .replied 9 .everythingOk, .destroyed] ∧
            OneReply ⟨.el, insertionListSort⟩ twoInstances 9 (.set []) [] events finish :=
  have hrun : (travelStep ⟨.el, insertionListSort⟩).Runs (LeavesKey [])
      ⟨(dispatch ⟨.el, insertionListSort⟩ twoInstances [] []).2, some (0, ⟨9, .set [], [], []⟩), []⟩
      [.handle (.status (-1) 0) false, .handle (.status 1 1) false] _ :=
    .head trivial rfl (.head trivial rfl (.refl _))
  ⟨_, _, _, rfl, hrun, rfl, oneReply_of_runs rfl hrun⟩

end SockMyPort.Coordinador
