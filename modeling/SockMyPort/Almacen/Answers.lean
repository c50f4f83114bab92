/-
# One conversation after another

What is done for a key is a sequence of conversations. A request is dispatched, some
instances are instructed, each of them once, and there is one reply, all of it before
anything is done for the next request about the key. While no request is about the key, its
entry in the key table is what the last conversation says.
-/

import SockMyPort.Almacen.Places
import SockMyPort.Coordinador.Retries

namespace SockMyPort.Almacen

open SockMyPort.Commons SockMyPort.Coordinador SockMyPort.Instancia Library

/-! ## Tables -/

/-- The entry of a key is the same, and all instances are still known. -/
structure Leaves (key : CString) (tables next : Tables) : Prop where
  entry : keyTableGet next key = keyTableGet tables key
  instances : tables.instanceList ⊆ next.instanceList

section Tables

variable {setup : Setup} {tables middle next : Tables} {key other : CString}

theorem Leaves.refl (key : CString) (tables : Tables) : Leaves key tables tables :=
  ⟨rfl, List.Subset.refl _⟩

theorem Leaves.trans (hfirst : Leaves key tables middle) (hsecond : Leaves key middle next) :
    Leaves key tables next :=
  ⟨hsecond.entry.trans hfirst.entry, List.Subset.trans hfirst.instances hsecond.instances⟩

theorem leaves_keyTablePut (hne : key ≠ other) (data : Option KeyTableData) :
    Leaves key tables (keyTablePut tables other data) :=
  ⟨keyTableGet_keyTablePut_of_ne hne, List.Subset.refl _⟩

/-- Creating another key, or one that exists. -/
theorem leaves_keyTableCreateKey (hother : key ≠ other ∨ keyTableGet tables key ≠ none) :
    Leaves key tables (keyTableCreateKey tables other none) := by
  cases hget : keyTableGet tables other with
  | none =>
      simp only [keyTableCreateKey, hget]
      obtain hne | hsome := hother
      · exact leaves_keyTablePut hne _
      · exact leaves_keyTablePut (fun heq => hsome (by rw [heq, hget])) _
  | some data =>
      simp only [keyTableCreateKey, hget]
      exact .refl key tables

theorem leaves_keyTableSetInitialized (hne : key ≠ other) :
    Leaves key tables (keyTableSetInitialized tables other) := by
  rw [keyTableSetInitialized]
  split
  · exact .refl key tables
  · exact leaves_keyTablePut hne _

/-- A choice for another key. -/
theorem leaves_of_choice {excluded : List InstanceRef} {result : Option InstanceRef × Tables}
    (hne : key ≠ other) (hchoice : Choice tables other excluded result) :
    Leaves key tables result.2 := by
  cases hchoice with
  | nobody hnobody => exact ⟨congrFun hnobody.keyTable key, hnobody.perm.symm.subset⟩
  | somebody hchooses => exact ⟨hchooses.otherKeys key hne, hchooses.perm.symm.subset⟩

theorem leaves_dispatch (hne : key ≠ other) (excluded : List InstanceRef) :
    Leaves key tables (dispatch setup tables other excluded).2 := by
  rw [dispatch]
  split
  · exact leaves_of_choice hne (choice_distribute setup tables other excluded)
  · split
    · exact .refl key tables
    · exact (leaves_keyTablePut hne none).trans
        (leaves_of_choice hne
          (choice_distribute setup (keyTableRemove tables other) other excluded))

theorem leaves_instanceListRemove (name : CString) :
    Leaves key tables (instanceListRemove tables name) :=
  ⟨keyTableGet_instanceListRemove name, by rw [instanceListRemove_instanceList]; exact fun _ => id⟩

theorem leaves_instanceListAdd (name : CString) (fd : ℤ) (created : InstanceRef)
    (testConnection : Bool) :
    Leaves key tables (instanceListAdd tables name fd created testConnection).2 := by
  rw [instanceListAdd]
  split
  · exact ⟨rfl, List.subset_cons_self _ _⟩
  · split
    · exact ⟨rfl, List.Subset.refl _⟩
    · exact .refl key tables

theorem leaves_afterTurn {handled : Handled} (fd : ℤ) (node : InstanceRef) :
    Leaves key handled.tables (afterTurn fd node handled) := by
  simp only [afterTurn]
  split
  · exact .refl key _
  · exact leaves_instanceListRemove _

/-- Another SET that is dispatched again, or not. -/
theorem leaves_instanceDispatchFailedSet {request : RequestNode} (hne : key ≠ request.key)
    (node : InstanceRef) (success : Bool) :
    Leaves key tables (instanceDispatchFailedSet setup tables node request success).tables := by
  have hleaves := @leaves_dispatch setup tables key request.key hne
    (request.excludedInstances ++ [node])
  rw [instanceDispatchFailedSet]
  revert hleaves
  generalize dispatch setup tables request.key (request.excludedInstances ++ [node]) = result
  obtain ⟨chosen, dispatched⟩ := result
  intro hleaves
  cases chosen with
  | none => exact hleaves
  | some other => exact hleaves

/-- What follows the exchange for another key. -/
theorem leaves_handleAnswer {node : InstanceRef} {request : RequestNode} {outcome : Outcome}
    (hne : key ≠ request.key) :
    Leaves key tables (handleAnswer setup tables node request outcome).tables := by
  have hremoved : ∀ left : Tables, Leaves key left (keyTableRemove left request.key) :=
    fun left => leaves_keyTablePut hne none
  have hcounted : ∀ usedEntries, Leaves key tables (setUsedEntries tables node usedEntries) :=
    fun _ => ⟨rfl, List.Subset.refl _⟩
  rw [handleAnswer]
  cases request.type with
  | set value =>
      cases outcome with
      | sendFailure | recvFailure =>
          exact (hremoved tables).trans (leaves_instanceDispatchFailedSet hne node false)
      | status code usedEntries =>
          simp only [instanceHandleSetRequest]
          split
          · exact (hcounted usedEntries).trans (leaves_keyTableSetInitialized hne)
          · split
            · exact (hcounted usedEntries).trans (hremoved _)
            · exact ((hcounted usedEntries).trans (hremoved _)).trans
                (leaves_instanceDispatchFailedSet hne node _)
  | store =>
      cases outcome with
      | sendFailure | recvFailure => exact hremoved tables
      | status code usedEntries =>
          simp only [instanceHandleStoreRequest]
          split
          · exact .refl key tables
          · exact hremoved tables

end Tables

/-! ## Conversations -/

/-- A request that was answered: the instances that were instructed for it, and the reply.
When no instance is available, no node is created for it. -/
structure Conversation where
  esiFd : ℤ
  type : RequestType
  dispatched : Bool
  visited : List InstanceRef
  reply : Reply
  deriving DecidableEq

/-- What is done for a request. -/
def Conversation.effects (key : CString) (conversation : Conversation) : List Effect :=
  conversation.visited.map .instruction ++
    ((if conversation.type = .store ∧ conversation.reply = .everythingOk then [.unblocked key]
      else []) ++
    .replied conversation.esiFd conversation.reply ::
      if conversation.dispatched then [.destroyed] else [])

/-- What was asked. -/
def Conversation.question (conversation : Conversation) : ℤ × RequestType :=
  (conversation.esiFd, conversation.type)

/-- The instance that has the key after a conversation about it. -/
def Conversation.holder (conversation : Conversation) : Option InstanceRef :=
  match conversation.reply with
  | .everythingOk => conversation.visited.getLast?
  | .illegalOperation => none

/-- The instance that has the key after some conversations about it. -/
def holder (conversations : List Conversation) : Option InstanceRef :=
  conversations.getLast?.bind Conversation.holder

/-- No instance is instructed twice, a success comes from an instance, and a STORE goes to
the instance that has the key or to nobody. -/
structure Conversation.IsRegular (instances : List InstanceRef) (before : Option InstanceRef)
    (conversation : Conversation) : Prop where
  once : conversation.visited.Nodup
  known : conversation.visited ⊆ instances
  success : conversation.reply = .everythingOk → conversation.visited ≠ []
  refused : conversation.dispatched = false → conversation.visited = []
  store : conversation.type = .store → ∀ node ∈ conversation.visited, before = some node

/-- Regular conversations, one after another. -/
inductive Sequence (instances : List InstanceRef) : List Conversation → Prop
  | nil : Sequence instances []
  | snoc {conversations : List Conversation} {conversation : Conversation}
      (hbefore : Sequence instances conversations)
      (hlast : conversation.IsRegular instances (holder conversations)) :
      Sequence instances (conversations ++ [conversation])

section Conversations

variable {instances more : List InstanceRef} {conversations : List Conversation}
  {conversation : Conversation} {node : InstanceRef}

@[simp]
theorem holder_concat : holder (conversations ++ [conversation]) = conversation.holder := by
  rw [holder, List.getLast?_concat]
  rfl

/-- New instances change nothing. -/
theorem Sequence.mono (hsequence : Sequence instances conversations)
    (hmore : instances ⊆ more) : Sequence more conversations := by
  induction hsequence with
  | nil => exact .nil
  | snoc _ hlast ih => exact .snoc ih { hlast with known := List.Subset.trans hlast.known hmore }

/-- The instance that has the key is known. -/
theorem Sequence.mem_of_holder (hsequence : Sequence instances conversations)
    (hholder : holder conversations = some node) : node ∈ instances := by
  cases hsequence with
  | nil => cases hholder
  | snoc _ hlast =>
      rw [holder_concat, Conversation.holder] at hholder
      split at hholder
      · exact hlast.known (List.mem_of_getLast? hholder)
      · cases hholder

end Conversations

/-! ## The request in flight -/

/-- What the entry of a key is after some conversations, while no request is about it. A
GET may have created it. -/
def EntryAfter (entry : Option KeyTableData) : Option InstanceRef → Prop
  | some node => entry = some ⟨true, some node⟩
  | none => entry = none ∨ entry = some ⟨false, none⟩

/-- The instructions for a request that is at a place. -/
def Place.instructions (place : Place) : List Effect :=
  place.request.excludedInstances.map .instruction ++
    match place.stage with
    | .answered _ => [.instruction place.node]
    | .queued | .handling => []

/-- A request about a key is at an instance that has the key and that it has not visited
yet. A STORE that was sent is at the instance that had the key before. -/
structure InFlight (tables : Tables) (key : CString) (before : Option InstanceRef)
    (place : Place) : Prop where
  sameKey : place.request.key = key
  once : (place.request.excludedInstances ++ [place.node]).Nodup
  known : place.request.excludedInstances ++ [place.node] ⊆ tables.instanceList
  assigned : ∃ initialized, keyTableGet tables key = some ⟨initialized, some place.node⟩ ∧
    (initialized = true → before = some place.node)
  first : place.request.type = .store → place.request.excludedInstances = []
  sent : place.request.type = .store → ∀ outcome, place.stage = .answered outcome →
    keyTableIsNew tables key = false

/-- The requests about a key that are in flight, if any, what they ask, and what was done
for them. -/
inductive Current (tables : Tables) (key : CString) (before : Option InstanceRef) :
    List Place → List (ℤ × RequestType) → List Effect → Prop
  | quiet (hentry : EntryAfter (keyTableGet tables key) before) : Current tables key before [] [] []
  | inFlight {place : Place} (hplace : InFlight tables key before place) :
      Current tables key before [place]
        [(place.request.requestingEsiFd, place.request.type)] place.instructions

/-- Where the requests about a key are. -/
def AlmacenState.about (almacen : AlmacenState) (key : CString) : List Place :=
  almacen.places.filter fun place => place.request.key = key

/-- What was done for a key, in order. -/
def AlmacenState.done (almacen : AlmacenState) (key : CString) : List Effect :=
  almacen.log.filterMap fun entry => if entry.1 = key then some entry.2 else none

/-- **One conversation after another** for a key: all that was asked has been answered, in
order, or it is the last one, which is in flight. -/
structure Serialized (almacen : AlmacenState) (key : CString) (asked : List (ℤ × RequestType))
    (conversations : List Conversation) : Prop where
  sequence : Sequence almacen.tables.instanceList conversations
  current : ∃ pending effects,
    Current almacen.tables key (holder conversations) (almacen.about key) pending effects ∧
      asked = conversations.map Conversation.question ++ pending ∧
      almacen.done key = conversations.flatMap (Conversation.effects key) ++ effects

/-! ## What dispatch does to the key -/

section Dispatch

variable {setup : Setup} {tables next : Tables} {key : CString} {node : InstanceRef}
  {excluded : List InstanceRef} {before : Option InstanceRef}

theorem keyTableGet_popAndPush {base : Tables} (hbase : base.keyTable = tables.keyTable)
    (hchosen : popAndPush base key excluded = (some node, next)) :
    keyTableGet next key =
      some ⟨(keyTableGet tables key).any KeyTableData.initialized, some node⟩ := by
  rw [popAndPush] at hchosen
  split at hchosen
  · cases hchosen
  · rename_i nextInstance popped hpop
    obtain ⟨hnode, rfl⟩ := Prod.mk.inj hchosen
    obtain rfl := Option.some.inj hnode
    rw [keyTableGet_keyTableCreateKey]
    have hsame :
        keyTableGet (instanceListPush popped nextInstance) key = keyTableGet tables key := by
      obtain ⟨-, rfl⟩ := Prod.mk.inj hpop
      exact congrFun hbase key
    rw [hsame]

/-- A chosen instance gets the key, initialized or not as it was. -/
theorem keyTableGet_distribute
    (hchosen : distribute setup tables key excluded = (some node, next)) :
    keyTableGet next key =
      some ⟨(keyTableGet tables key).any KeyTableData.initialized, some node⟩ := by
  rw [distribute] at hchosen
  cases hdistribution : setup.distribution with
  | el =>
      rw [hdistribution] at hchosen
      exact keyTableGet_popAndPush rfl hchosen
  | lsu =>
      rw [hdistribution] at hchosen
      have hsorted : popAndPush (instanceListSort setup.sort tables (sortByUsedSpace tables)) key
          excluded = (some node, next) := hchosen
      refine keyTableGet_popAndPush ?_ hsorted
      rfl
  | ke =>
      simp only [hdistribution, keyExplicit] at hchosen
      split at hchosen
      · cases hchosen
      · obtain ⟨hnode, rfl⟩ := Prod.mk.inj hchosen
        obtain rfl := Option.some.inj hnode
        exact keyTableGet_keyTableCreateKey _

/-- A key that no instance has. -/
theorem EntryAfter.distribute (hentry : EntryAfter (keyTableGet tables key) none)
    {result : Option InstanceRef × Tables}
    (hresult : Coordinador.distribute setup tables key excluded = result) :
    tables.instanceList ⊆ result.2.instanceList ∧
      (result.1 = none → EntryAfter (keyTableGet result.2 key) none) ∧
      ∀ node, result.1 = some node → node ∈ result.2.instanceList ∧ node ∉ excluded ∧
        keyTableGet result.2 key = some ⟨false, some node⟩ := by
  have hchoice := choice_distribute setup tables key excluded
  have hinitialized : (keyTableGet tables key).any KeyTableData.initialized = false := by
    obtain hnone | hsome := hentry
    · rw [hnone]
      rfl
    · rw [hsome]
      rfl
  rw [hresult] at hchoice
  refine ⟨hchoice.perm.symm.subset, fun hnone => ?_, fun node hnode => ?_⟩
  · cases hchoice with
    | nobody hnobody =>
        rw [keyTableGet, hnobody.keyTable]
        exact hentry
    | somebody hchooses => cases hnone
  · obtain ⟨hmember, -, hfresh, -⟩ := hchoice.chosen node hnode
    refine ⟨hchoice.perm.mem_iff.mpr hmember, hfresh, ?_⟩
    rw [← hinitialized]
    exact keyTableGet_distribute (hresult.trans (Prod.ext hnode rfl))

/-- The dispatch of a new request. -/
theorem EntryAfter.dispatch (hentry : EntryAfter (keyTableGet tables key) before)
    (hknown : ∀ node, before = some node → node ∈ tables.instanceList)
    {result : Option InstanceRef × Tables}
    (hresult : Coordinador.dispatch setup tables key [] = result) :
    tables.instanceList ⊆ result.2.instanceList ∧
      (result.1 = none → EntryAfter (keyTableGet result.2 key) none) ∧
      ∀ node, result.1 = some node → node ∈ result.2.instanceList ∧
        ∃ initialized, keyTableGet result.2 key = some ⟨initialized, some node⟩ ∧
          (initialized = true → before = some node) := by
  have hchosen : ∀ base : Tables, base.instanceList = tables.instanceList →
      EntryAfter (keyTableGet base key) none →
      Coordinador.distribute setup base key [] = result →
      tables.instanceList ⊆ result.2.instanceList ∧
        (result.1 = none → EntryAfter (keyTableGet result.2 key) none) ∧
        ∀ node, result.1 = some node → node ∈ result.2.instanceList ∧
          ∃ initialized, keyTableGet result.2 key = some ⟨initialized, some node⟩ ∧
            (initialized = true → before = some node) := by
    intro base hlist hbase hdistribute
    obtain ⟨hmore, hnobody, hsomebody⟩ := hbase.distribute hdistribute
    refine ⟨hlist ▸ hmore, hnobody, fun node hnode => ?_⟩
    obtain ⟨hmember, -, hget⟩ := hsomebody node hnode
    exact ⟨hmember, false, hget, Bool.noConfusion⟩
  cases before with
  | none =>
      have hinstance : keyTableGetInstance tables key = none := by
        obtain hnone | hsome := hentry
        · rw [keyTableGetInstance, hnone]
          rfl
        · rw [keyTableGetInstance, hsome]
          rfl
      simp only [Coordinador.dispatch, hinstance] at hresult
      exact hchosen tables rfl hentry hresult
  | some holder =>
      have hget : keyTableGet tables key = some ⟨true, some holder⟩ := hentry
      have hinstance : keyTableGetInstance tables key = some holder := by
        rw [keyTableGetInstance, hget]
        rfl
      simp only [Coordinador.dispatch, hinstance] at hresult
      split at hresult
      · obtain rfl := hresult
        refine ⟨List.Subset.refl _, ?_, fun node hnode => ?_⟩
        · intro hnone
          cases hnone
        · obtain rfl := Option.some.inj hnode
          exact ⟨hknown holder rfl, true, hget, fun _ => rfl⟩
      · exact hchosen (keyTableRemove tables key) rfl (.inl keyTableGet_keyTableRemove) hresult

end Dispatch

/-! ## What follows the exchange -/

section Answers

variable {setup : Setup} {tables next : Tables} {key : CString} {node : InstanceRef}
  {request : RequestNode} {outcome : Outcome} {before : Option InstanceRef}

/-- What a turn leaves of a request that was instructed: a conversation has ended, or the
request is on its way to an instance that it has not visited. -/
inductive TurnEnds (tables : Tables) (key : CString) (before : Option InstanceRef)
    (node : InstanceRef) (request : RequestNode) (handled : Handled) : Prop
  | replied (reply : Reply) (hqueued : handled.queued = none)
      (heffects : handled.effects =
        (if request.type = .store ∧ reply = .everythingOk then [.unblocked key] else []) ++
          [.replied request.requestingEsiFd reply, .destroyed])
      (hentry : EntryAfter (keyTableGet handled.tables key)
        (if reply = .everythingOk then some node else none))
  | dispatched {other : InstanceRef} (heffects : handled.effects = [])
      (hqueued : handled.queued = some
        (other, { request with excludedInstances := request.excludedInstances ++ [node] }))
      (hplace : InFlight handled.tables key before ⟨other,
        { request with excludedInstances := request.excludedInstances ++ [node] }, .queued⟩)

/-- A SET that failed, on tables without its key. -/
theorem turnEnds_instanceDispatchFailedSet {stage : Stage} {value : CString} {left : Tables}
    (hplace : InFlight tables key before ⟨node, request, stage⟩)
    (htype : request.type = .set value) (hleft : keyTableGet left key = none)
    (hinstances : tables.instanceList ⊆ left.instanceList) (success : Bool) :
    TurnEnds tables key before node request
      (instanceDispatchFailedSet setup left node request success) ∧
      tables.instanceList ⊆
        (instanceDispatchFailedSet setup left node request success).tables.instanceList := by
  obtain rfl : request.key = key := hplace.sameKey
  have hdispatch : dispatch setup left request.key (request.excludedInstances ++ [node]) =
      distribute setup left request.key (request.excludedInstances ++ [node]) := by
    rw [dispatch, keyTableGetInstance, hleft]
    rfl
  have hentry : EntryAfter (keyTableGet left request.key) none := .inl hleft
  obtain ⟨hmore, hnobody, hsomebody⟩ := hentry.distribute hdispatch.symm
  have hstore : request.type ≠ .store := fun heq => by
    rw [htype] at heq
    cases heq
  rw [instanceDispatchFailedSet]
  revert hmore hnobody hsomebody
  generalize dispatch setup left request.key (request.excludedInstances ++ [node]) = result
  obtain ⟨chosen, dispatched⟩ := result
  intro hmore hnobody hsomebody
  cases chosen with
  | none =>
      refine ⟨.replied .illegalOperation rfl ?_ (hnobody rfl),
        List.Subset.trans hinstances hmore⟩
      rw [if_neg fun hboth => hstore hboth.1]
      rfl
  | some other =>
      obtain ⟨hmember, hfresh, hget⟩ := hsomebody other rfl
      refine ⟨.dispatched rfl rfl ?_, List.Subset.trans hinstances hmore⟩
      have hdisjoint : ∀ visited ∈ request.excludedInstances ++ [node], ∀ last ∈ [other],
          visited ≠ last := fun visited hvisited last hlast heq => by
        rw [heq, List.mem_singleton.mp hlast] at hvisited
        exact hfresh hvisited
      exact {
        sameKey := rfl
        once := List.nodup_append.mpr ⟨hplace.once, List.nodup_singleton other, hdisjoint⟩
        known := List.append_subset.mpr ⟨List.Subset.trans hplace.known
          (List.Subset.trans hinstances hmore), by simpa using hmember⟩
        assigned := ⟨false, hget, Bool.noConfusion⟩
        first := fun heq => absurd heq hstore
        sent := fun heq => absurd heq hstore }

theorem turnEnds_handleAnswer
    (hplace : InFlight tables key before ⟨node, request, .answered outcome⟩) :
    TurnEnds tables key before node request (handleAnswer setup tables node request outcome) ∧
      tables.instanceList ⊆
        (handleAnswer setup tables node request outcome).tables.instanceList := by
  have hsame : request.key = key := hplace.sameKey
  obtain ⟨initialized, hget, hinitialized⟩ := hplace.assigned
  rw [handleAnswer]
  cases htype : request.type with
  | set value =>
      have hhandling := setHandling setup tables node request outcome
      revert hhandling
      dsimp only
      generalize instanceHandleSetRequest setup tables node request outcome = handled
      intro hhandling
      cases hhandling with
      | done usedEntries =>
          have hassigned : keyTableGetInstance (setUsedEntries tables node usedEntries) key =
              some node := by
            show (keyTableGet tables key).bind KeyTableData.instanceRef = some node
            rw [hget]
            rfl
          have hlist : (keyTableSetInitialized (setUsedEntries tables node usedEntries)
              request.key).instanceList = tables.instanceList := by
            rw [keyTableSetInitialized]
            split <;> rfl
          refine ⟨.replied .everythingOk rfl ?_ ?_, hlist.symm ▸ List.Subset.refl _⟩
          · rw [htype]
            rfl
          · rw [if_pos rfl, ← hsame]
            rw [← hsame] at hassigned
            exact keyTableGet_keyTableSetInitialized hassigned
      | replaced usedEntries =>
          refine ⟨.replied .illegalOperation rfl ?_ ?_, List.Subset.refl _⟩
          · rw [htype]
            rfl
          · rw [← hsame]
            exact .inl keyTableGet_keyTableRemove
      | failed left success hlist =>
          refine turnEnds_instanceDispatchFailedSet hplace htype ?_ ?_ success
          · rw [← hsame]
            exact keyTableGet_keyTableRemove
          · rw [← hlist]
            exact List.Subset.refl _
  | store =>
      have hsent := hplace.sent htype outcome rfl
      have hfailed : ∀ success, TurnEnds tables key before node request
          (answer (keyTableRemove tables request.key) request .illegalOperation success) := by
        intro success
        refine .replied .illegalOperation rfl ?_ ?_
        · rw [if_neg fun hboth => Reply.noConfusion hboth.2]
          rfl
        · rw [← hsame]
          exact .inl keyTableGet_keyTableRemove
      cases outcome with
      | sendFailure | recvFailure => exact ⟨hfailed false, List.Subset.refl _⟩
      | status code usedEntries =>
          simp only [instanceHandleStoreRequest]
          split
          · refine ⟨.replied .everythingOk rfl ?_ ?_, List.Subset.refl _⟩
            · rw [if_pos ⟨htype, rfl⟩, ← hsame]
              rfl
            · rw [keyTableIsNew, hget] at hsent
              rw [if_pos rfl]
              cases initialized with
              | true => exact hget
              | false => cases hsent
          · exact ⟨hfailed _, List.Subset.refl _⟩

end Answers

/-! ## Steps -/

section Steps

variable {setup : Setup} {config : InstanceRef → Instancia.Config} {almacen next : AlmacenState}
  {key other : CString} {before : Option InstanceRef} {place moved : Place} {rest : List Place}
  {asked : List (ℤ × RequestType)} {conversations : List Conversation}

theorem about_of_perm {places : List Place} (hplaces : almacen.places.Perm places) :
    (almacen.about key).Perm (places.filter fun place => place.request.key = key) :=
  hplaces.filter _

theorem done_of_log {effects : List Effect}
    (hlog : next.log = almacen.log ++ tagged other effects) :
    next.done key = almacen.done key ++ if other = key then effects else [] := by
  have htagged : (tagged other effects).filterMap
      (fun entry => if entry.1 = key then some entry.2 else none) =
        if other = key then effects else [] := by
    rw [tagged, List.filterMap_map]
    by_cases heq : other = key <;> simp [heq]
  rw [AlmacenState.done, hlog, List.filterMap_append, htagged, ← AlmacenState.done]

theorem InFlight.leaves {tables left : Tables} (hplace : InFlight tables key before place)
    (hleaves : Leaves key tables left) : InFlight left key before place :=
  { hplace with
    known := List.Subset.trans hplace.known hleaves.instances
    assigned := by
      rw [hleaves.entry]
      exact hplace.assigned
    sent := fun hstore outcome hstage => by
      rw [keyTableIsNew, hleaves.entry]
      exact hplace.sent hstore outcome hstage }

theorem Current.leaves {tables left : Tables} {places : List Place}
    {pending : List (ℤ × RequestType)} {effects : List Effect}
    (hcurrent : Current tables key before places pending effects)
    (hleaves : Leaves key tables left) : Current left key before places pending effects := by
  cases hcurrent with
  | quiet hentry => exact .quiet (hleaves.entry ▸ hentry)
  | inFlight hplace => exact .inFlight (hplace.leaves hleaves)

/-- At most one request about a key is in flight, so that there is no order. -/
theorem Current.eq_of_perm {tables : Tables} {places others : List Place}
    {pending : List (ℤ × RequestType)} {effects : List Effect}
    (hcurrent : Current tables key before places pending effects) (hperm : others.Perm places) :
    others = places := by
  cases hcurrent with
  | quiet => exact List.perm_nil.mp hperm
  | inFlight => exact List.perm_singleton.mp hperm

/-- No request about the key is in flight. -/
theorem Serialized.of_quiet (h : Serialized almacen key asked conversations)
    (hquiet : almacen.isQuiet key = true) :
    almacen.about key = [] ∧ EntryAfter (keyTableGet almacen.tables key) (holder conversations) ∧
      asked = conversations.map Conversation.question ∧
        almacen.done key = conversations.flatMap (Conversation.effects key) := by
  have habout : almacen.about key = [] := by
    refine List.filter_eq_nil_iff.mpr fun place hmem hkey => ?_
    have hin : place.request ∈ almacen.inFlight := by
      rw [← map_request_places]
      exact List.mem_map_of_mem hmem
    exact of_decide_eq_true (List.all_eq_true.mp hquiet place.request hin) (of_decide_eq_true hkey)
  obtain ⟨pending, effects, hcurrent, hasked, hdone⟩ := h.current
  rw [habout] at hcurrent
  cases hcurrent with
  | quiet hentry => exact ⟨habout, hentry, by simpa using hasked, by simpa using hdone⟩

/-- A request about the key is the only one. -/
theorem Serialized.of_place (h : Serialized almacen key asked conversations)
    (hbefore : almacen.places.Perm (place :: rest)) (hkey : place.request.key = key) :
    InFlight almacen.tables key (holder conversations) place ∧
      (rest.filter fun place => place.request.key = key) = [] ∧
      asked = conversations.map Conversation.question ++
        [(place.request.requestingEsiFd, place.request.type)] ∧
      almacen.done key =
        conversations.flatMap (Conversation.effects key) ++ place.instructions := by
  obtain ⟨pending, effects, hcurrent, hasked, hdone⟩ := h.current
  have habout := @about_of_perm almacen key _ hbefore
  rw [List.filter_cons_of_pos (by simpa using hkey)] at habout
  have heq := hcurrent.eq_of_perm habout.symm
  rw [← heq] at hcurrent
  generalize (rest.filter fun place => place.request.key = key) = others at hcurrent
  cases hcurrent with
  | inFlight hplace => exact ⟨hplace, rfl, hasked, hdone⟩

/-- The request about the key goes on. -/
theorem Serialized.moves (h : Serialized almacen key asked conversations)
    (hbefore : almacen.places.Perm (place :: rest)) (hkey : place.request.key = key)
    (hafter : next.places.Perm (moved :: rest))
    (hsame : (moved.request.requestingEsiFd, moved.request.type) =
      (place.request.requestingEsiFd, place.request.type))
    (hmoved : InFlight next.tables key (holder conversations) moved)
    (hinstances : almacen.tables.instanceList ⊆ next.tables.instanceList)
    {effects : List Effect} (hdone : next.done key = almacen.done key ++ effects)
    (hinstructions : moved.instructions = place.instructions ++ effects) :
    Serialized next key asked conversations := by
  obtain ⟨-, hrest, hasked, hsofar⟩ := h.of_place hbefore hkey
  have habout := @about_of_perm next key _ hafter
  rw [List.filter_cons_of_pos (by simpa using hmoved.sameKey), hrest] at habout
  refine ⟨h.sequence.mono hinstances,
    [(moved.request.requestingEsiFd, moved.request.type)], moved.instructions, ?_, ?_, ?_⟩
  · rw [List.perm_singleton.mp habout]
    exact .inFlight hmoved
  · rw [hsame, hasked]
  · rw [hdone, hsofar, hinstructions, List.append_assoc]

/-- The request about the key is answered. -/
theorem Serialized.ends (h : Serialized almacen key asked conversations)
    (hbefore : almacen.places.Perm (place :: rest)) (hkey : place.request.key = key)
    (hafter : next.places.Perm rest) {conversation : Conversation}
    (hsame : conversation.question = (place.request.requestingEsiFd, place.request.type))
    (hregular : conversation.IsRegular next.tables.instanceList (holder conversations))
    (hentry : EntryAfter (keyTableGet next.tables key) conversation.holder)
    (hinstances : almacen.tables.instanceList ⊆ next.tables.instanceList)
    {effects : List Effect} (hdone : next.done key = almacen.done key ++ effects)
    (heffects : conversation.effects key = place.instructions ++ effects) :
    Serialized next key asked (conversations ++ [conversation]) := by
  obtain ⟨-, hrest, hasked, hsofar⟩ := h.of_place hbefore hkey
  have habout := @about_of_perm next key _ hafter
  rw [hrest] at habout
  refine ⟨.snoc (h.sequence.mono hinstances) hregular, [], [], ?_, ?_, ?_⟩
  · rw [List.perm_nil.mp habout, holder_concat]
    exact .quiet hentry
  · rw [hasked, List.map_append, List.append_nil, List.map_singleton, hsame]
  · rw [hdone, hsofar, List.flatMap_append, List.flatMap_singleton, heffects, List.append_nil,
      List.append_assoc]

/-- A request that is queued again is about the same key. -/
theorem key_of_handleAnswer {tables : Tables} {node again : InstanceRef}
    {request queued : RequestNode} {outcome : Outcome}
    (hqueued : (handleAnswer setup tables node request outcome).queued = some (again, queued)) :
    queued.key = request.key := by
  rw [handleAnswer] at hqueued
  cases htype : request.type with
  | set value =>
      have hhandling := setHandling setup tables node request outcome
      rw [htype] at hqueued
      dsimp only at hqueued
      revert hqueued hhandling
      generalize instanceHandleSetRequest setup tables node request outcome = handled
      intro hqueued hhandling
      cases hhandling with
      | done => cases hqueued
      | replaced => cases hqueued
      | failed left success =>
          rw [instanceDispatchFailedSet] at hqueued
          split at hqueued
          · cases hqueued
          · obtain ⟨-, rfl⟩ := Prod.mk.inj (Option.some.inj hqueued)
            rfl
  | store =>
      obtain ⟨left, notices, reply, success, -, -, hhandled⟩ := storeHandling tables request outcome
      rw [htype] at hqueued
      dsimp only at hqueued
      rw [hhandled] at hqueued
      cases hqueued

/-- The end of a turn for another key. -/
theorem about_of_conclude {node : InstanceRef} {request : RequestNode} {outcome : Outcome}
    {tables : Tables} (hkey : request.key ≠ key)
    (hafter : next.places.Perm
      ((handleAnswer setup tables node request outcome).queued.toList.map queuedPlace ++ rest)) :
    (next.about key).Perm (rest.filter fun place => place.request.key = key) := by
  have hqueued : ((handleAnswer setup tables node request outcome).queued.toList.map
      queuedPlace).filter (fun place => place.request.key = key) = [] := by
    refine List.filter_eq_nil_iff.mpr fun place hmem hsame => ?_
    obtain ⟨⟨again, queued⟩, hqueued, rfl⟩ := List.mem_map.mp hmem
    have hsameKey := key_of_handleAnswer (Option.mem_toList.mp hqueued)
    exact hkey (hsameKey.symm.trans (of_decide_eq_true hsame))
  have habout := @about_of_perm next key _ hafter
  rwa [List.filter_append, hqueued, List.nil_append] at habout

/-- What an event asks about a key. -/
def askedAbout (key : CString) : AlmacenEvent → List (ℤ × RequestType)
  | .request esiFd type other => if other = key then [(esiFd, type)] else []
  | _ => []

theorem askedAbout_eq_nil {event : AlmacenEvent}
    (hrequest : ∀ esiFd type other, event ≠ .request esiFd type other) :
    askedAbout key event = [] := by
  cases event with
  | request esiFd type other => exact absurd rfl (hrequest esiFd type other)
  | _ => rfl

/-- The requests about a key, its conversations and its entry stay. -/
structure Elsewhere (key : CString) (almacen next : AlmacenState) : Prop where
  about : (next.about key).Perm (almacen.about key)
  done : next.done key = almacen.done key
  leaves : Leaves key almacen.tables next.tables

/-- A step that tells of no request. -/
theorem done_of_log_eq (hlog : next.log = almacen.log) : next.done key = almacen.done key := by
  rw [AlmacenState.done, hlog, AlmacenState.done]

/-- A step that tells of a request about another key. -/
theorem done_of_log_of_ne {effects : List Effect} (hother : other ≠ key)
    (hlog : next.log = almacen.log ++ tagged other effects) :
    next.done key = almacen.done key := by
  rw [done_of_log hlog, if_neg hother, List.append_nil]

/-- A request about another key is nowhere. -/
theorem about_of_perm_of_ne (hother : place.request.key ≠ key)
    (hplaces : almacen.places.Perm (place :: rest)) :
    (almacen.about key).Perm (rest.filter fun place => place.request.key = key) := by
  have habout := @about_of_perm almacen key _ hplaces
  rwa [List.filter_cons_of_neg (by simpa using hother)] at habout

/-- A dispatch for another key. -/
theorem leaves_of_dispatch (hother : other ≠ key) {tables left : Tables}
    {result : Option InstanceRef} (hdispatch : dispatch setup tables other [] = (result, left)) :
    Leaves key tables left := by
  have hleaves := @leaves_dispatch setup tables key other (Ne.symm hother) []
  rwa [hdispatch] at hleaves

section MoveAbout

variable (setup config almacen next key)

/-- What a move means for one key. -/
inductive MoveAbout : AlmacenEvent → Prop
  | elsewhere {event : AlmacenEvent} (hasked : askedAbout key event = [])
      (helsewhere : Elsewhere key almacen next)
      (hpeers : next.peers = almacen.peers ∨ ∃ node life, event = .peer node life ∧
        isUninstructed life = true ∧ Acts config almacen.peers next.peers node life) :
      MoveAbout event
  | exchangeElsewhere {i : ℕ} {fate : Fate} {node : InstanceRef} {request : RequestNode}
      {outcome : Outcome} (hkey : request.key ≠ key)
      (hmem : ⟨node, request, .handling⟩ ∈ almacen.places)
      (helsewhere : Elsewhere key almacen next)
      (hpeers : Exchanged config (keyTableIsNew almacen.tables request.key) almacen.peers next.peers
        node request fate outcome) : MoveAbout (.exchange i fate)
  | creates (hnone : keyTableGet almacen.tables key = none)
      (habout : (next.about key).Perm (almacen.about key))
      (hdone : next.done key = almacen.done key)
      (htables : next.tables = keyTablePut almacen.tables key (some ⟨false, none⟩)) :
      MoveAbout (.get key)
  | asks {esiFd : ℤ} {type : RequestType} : MoveAbout (.request esiFd type key)
  | pop {i : ℕ} {node : InstanceRef} {request : RequestNode} {rest : List Place}
      (hkey : request.key = key)
      (hbefore : almacen.places.Perm (⟨node, request, .queued⟩ :: rest))
      (hafter : next.places.Perm (⟨node, request, .handling⟩ :: rest))
      (htables : next.tables = almacen.tables) (hlog : next.log = almacen.log)
      (hpeers : next.peers = almacen.peers) : MoveAbout (.pop i)
  | exchange {i : ℕ} {fate : Fate} {node : InstanceRef} {request : RequestNode}
      {outcome : Outcome} {rest : List Place} (hkey : request.key = key)
      (hinitialized : request.type = .store → keyTableIsNew almacen.tables request.key = false)
      (hbefore : almacen.places.Perm (⟨node, request, .handling⟩ :: rest))
      (hafter : next.places.Perm (⟨node, request, .answered outcome⟩ :: rest))
      (htables : next.tables = almacen.tables)
      (hlog : next.log = almacen.log ++ tagged request.key [.instruction node])
      (hpeers : Exchanged config (keyTableIsNew almacen.tables request.key) almacen.peers next.peers
        node request fate outcome) : MoveAbout (.exchange i fate)
  | refuseStore {i : ℕ} {fate : Fate} {node : InstanceRef} {request : RequestNode}
      {rest : List Place} (hkey : request.key = key) (hstore : request.type = .store)
      (hbefore : almacen.places.Perm (⟨node, request, .handling⟩ :: rest))
      (hafter : next.places.Perm rest)
      (htables : next.tables = keyTableRemove almacen.tables request.key)
      (hlog : next.log = almacen.log ++
        tagged request.key [.replied request.requestingEsiFd .illegalOperation, .destroyed])
      (hpeers : next.peers = almacen.peers) : MoveAbout (.exchange i fate)
  | conclude {i : ℕ} {fd : ℤ} {node : InstanceRef} {request : RequestNode} {outcome : Outcome}
      {rest : List Place} (hkey : request.key = key)
      (hbefore : almacen.places.Perm (⟨node, request, .answered outcome⟩ :: rest))
      (hafter : next.places.Perm
        ((handleAnswer setup almacen.tables node request outcome).queued.toList.map queuedPlace ++
          rest))
      (htables : next.tables =
        afterTurn fd node (handleAnswer setup almacen.tables node request outcome))
      (hlog : next.log = almacen.log ++
        tagged request.key (handleAnswer setup almacen.tables node request outcome).effects)
      (hpeers : next.peers = almacen.peers) : MoveAbout (.conclude i)

end MoveAbout

/-- **A move** is about the key or leaves it alone. -/
theorem Move.about {event : AlmacenEvent} (hmove : Move setup config almacen next event)
    (key : CString) : MoveAbout setup config almacen next key event := by
  cases hmove with
  | stay hplaces hlog hrequest hexchange htables hpeers =>
      have habout : (next.about key).Perm (almacen.about key) := about_of_perm hplaces
      have hdone : next.done key = almacen.done key := done_of_log_eq hlog
      have hasked : askedAbout key event = [] := askedAbout_eq_nil hrequest
      obtain hsame | ⟨created, rfl, hcreated⟩ | ⟨_, _, _, _, _, -, hadded⟩ := htables
      · exact .elsewhere hasked ⟨habout, hdone, hsame ▸ .refl key _⟩ hpeers
      · by_cases hnew : key = created ∧ keyTableGet almacen.tables key = none
        · obtain ⟨rfl, hnone⟩ := hnew
          refine .creates hnone habout hdone ?_
          simp only [hcreated, keyTableCreateKey, hnone]
        · refine .elsewhere hasked ⟨habout, hdone, ?_⟩ hpeers
          rw [hcreated]
          refine leaves_keyTableCreateKey ?_
          by_cases hkey : key = created
          · exact .inr fun hnone => hnew ⟨hkey, hnone⟩
          · exact .inl hkey
      · exact .elsewhere hasked ⟨habout, hdone, hadded ▸ leaves_instanceListAdd _ _ _ _⟩ hpeers
  | refuse hplaces hdispatch hlog hpeers =>
      rename_i esiFd type asked
      by_cases hkey : asked = key
      · subst hkey
        exact .asks
      · exact .elsewhere (if_neg hkey) ⟨about_of_perm (.of_eq hplaces), done_of_log_of_ne hkey hlog,
          leaves_of_dispatch hkey hdispatch⟩ (.inl hpeers)
  | enter hdispatch hplaces hlog hpeers =>
      rename_i esiFd type asked node
      by_cases hkey : asked = key
      · subst hkey
        exact .asks
      · exact .elsewhere (if_neg hkey) ⟨about_of_perm_of_ne hkey hplaces, done_of_log_eq hlog,
          leaves_of_dispatch hkey hdispatch⟩ (.inl hpeers)
  | pop hbefore hafter htables hlog hpeers =>
      rename_i i node request rest
      by_cases hkey : request.key = key
      · exact .pop hkey hbefore hafter htables hlog hpeers
      · exact .elsewhere rfl ⟨(about_of_perm_of_ne hkey hafter).trans
          (about_of_perm_of_ne hkey hbefore).symm, done_of_log_eq hlog, htables ▸ .refl key _⟩
          (.inl hpeers)
  | exchange hthread hinitialized hbefore hafter htables hlog hpeers =>
      rename_i i fate fd node request outcome rest
      by_cases hkey : request.key = key
      · exact .exchange hkey hinitialized hbefore hafter htables hlog hpeers
      · exact .exchangeElsewhere hkey (hbefore.mem_iff.mpr List.mem_cons_self)
          ⟨(about_of_perm_of_ne hkey hafter).trans (about_of_perm_of_ne hkey hbefore).symm,
            done_of_log_of_ne hkey hlog, htables ▸ .refl key _⟩ hpeers
  | refuseStore hthread hstore hnew hbefore hafter htables hlog hpeers =>
      rename_i i fate fd node request rest
      by_cases hkey : request.key = key
      · exact .refuseStore hkey hstore hbefore hafter htables hlog hpeers
      · exact .elsewhere rfl ⟨(about_of_perm hafter).trans (about_of_perm_of_ne hkey hbefore).symm,
          done_of_log_of_ne hkey hlog, htables ▸ leaves_keyTablePut (Ne.symm hkey) none⟩
          (.inl hpeers)
  | conclude hbefore hafter htables hlog hpeers =>
      rename_i i fd node request outcome rest
      by_cases hkey : request.key = key
      · exact .conclude hkey hbefore hafter htables hlog hpeers
      · exact .elsewhere rfl ⟨(about_of_conclude hkey hafter).trans
          (about_of_perm_of_ne hkey hbefore).symm, done_of_log_of_ne hkey hlog,
          htables ▸ (leaves_handleAnswer (Ne.symm hkey)).trans (leaves_afterTurn fd node)⟩
          (.inl hpeers)

/-- A step that leaves the key alone. -/
theorem Serialized.untouched (h : Serialized almacen key asked conversations)
    (helsewhere : Elsewhere key almacen next) : Serialized next key asked conversations := by
  obtain ⟨pending, effects, hcurrent, hasked, hbefore⟩ := h.current
  refine ⟨h.sequence.mono helsewhere.leaves.instances, pending, effects, ?_, hasked,
    helsewhere.done.trans hbefore⟩
  rw [hcurrent.eq_of_perm helsewhere.about]
  exact hcurrent.leaves helsewhere.leaves

/-- A new request about the key. -/
theorem Serialized.request (h : Serialized almacen key asked conversations) {esiFd : ℤ}
    {type : RequestType} (hquiet : almacen.isQuiet key = true)
    (hmove : Move setup config almacen next (.request esiFd type key)) :
    ∃ more, Serialized next key (asked ++ [(esiFd, type)]) (conversations ++ more) := by
  obtain ⟨habout, hentry, hasked, hsofar⟩ := h.of_quiet hquiet
  cases hmove with
  | stay _ _ hrequest => exact absurd rfl (hrequest esiFd type key)
  | refuse hplaces hdispatch hlog hpeers =>
      obtain ⟨hinstances, hnobody, -⟩ :=
        hentry.dispatch (fun _ => h.sequence.mem_of_holder) hdispatch
      refine ⟨[⟨esiFd, type, false, [], .illegalOperation⟩], .snoc (h.sequence.mono hinstances) ?_,
        [], [], ?_, ?_, ?_⟩
      · exact ⟨List.nodup_nil, List.nil_subset _, Reply.noConfusion, fun _ => rfl,
          fun _ node hmem => absurd hmem List.not_mem_nil⟩
      · have hnext : next.about key = [] := List.perm_nil.mp
          ((about_of_perm (.of_eq hplaces)).trans (.of_eq habout))
        rw [hnext, holder_concat]
        exact .quiet (hnobody rfl)
      · rw [hasked, List.map_append, List.append_nil]
        rfl
      · rw [done_of_log hlog, if_pos rfl, hsofar, List.flatMap_append, List.append_nil]
        simp [Conversation.effects]
  | enter hdispatch hplaces hlog hpeers =>
      rename_i node
      obtain ⟨hinstances, -, hsomebody⟩ :=
        hentry.dispatch (fun _ => h.sequence.mem_of_holder) hdispatch
      obtain ⟨hmember, hassigned⟩ := hsomebody node rfl
      have hnext : (next.about key).Perm [⟨node, ⟨esiFd, type, key, []⟩, .queued⟩] := by
        refine (about_of_perm hplaces).trans ?_
        rw [List.filter_cons_of_pos (by simp)]
        exact .of_eq (congrArg _ habout)
      refine ⟨[], ?_, [(esiFd, type)], [], ?_, ?_, ?_⟩
      · rw [List.append_nil]
        exact h.sequence.mono hinstances
      · rw [List.perm_singleton.mp hnext, List.append_nil]
        exact .inFlight ⟨rfl, List.nodup_singleton node, by simpa using hmember, hassigned,
          fun _ => rfl, fun _ outcome hstage => by cases hstage⟩
      · rw [hasked, List.append_nil]
      · rw [AlmacenState.done, hlog, ← AlmacenState.done, hsofar, List.append_nil, List.append_nil]

/-- The end of a turn for the key. -/
theorem Serialized.concludes (h : Serialized almacen key asked conversations) {fd : ℤ}
    {node : InstanceRef} {request : RequestNode} {outcome : Outcome} (hkey : request.key = key)
    (hbefore : almacen.places.Perm (⟨node, request, .answered outcome⟩ :: rest))
    (hafter : next.places.Perm
      ((handleAnswer setup almacen.tables node request outcome).queued.toList.map queuedPlace ++
        rest))
    (htables : next.tables =
      afterTurn fd node (handleAnswer setup almacen.tables node request outcome))
    (hlog : next.log = almacen.log ++
      tagged request.key (handleAnswer setup almacen.tables node request outcome).effects) :
    ∃ more, Serialized next key asked (conversations ++ more) := by
  obtain ⟨hplace, -, -, -⟩ := h.of_place hbefore hkey
  obtain ⟨hends, hinstances⟩ := @turnEnds_handleAnswer setup _ _ _ _ _ _ hplace
  have hdone : next.done key = _ := done_of_log hlog
  rw [if_pos hkey] at hdone
  revert hafter htables hdone hends hinstances
  generalize handleAnswer setup almacen.tables node request outcome = handled
  intro hafter htables hends hinstances hdone
  have hturn : Leaves key handled.tables next.tables := htables ▸ leaves_afterTurn fd node
  have hmore := List.Subset.trans hinstances hturn.instances
  cases hends with
  | replied reply hqueued heffects hentry =>
      rw [hqueued] at hafter
      refine ⟨[⟨request.requestingEsiFd, request.type, true, request.excludedInstances ++ [node],
        reply⟩], h.ends hbefore hkey hafter rfl ?_ ?_ hmore hdone ?_⟩
      · exact {
          once := hplace.once
          known := List.Subset.trans hplace.known hmore
          success := fun _ hnil => by simp at hnil
          refused := Bool.noConfusion
          store := fun hstore visited hvisited => by
            rw [hplace.first hstore, List.nil_append, List.mem_singleton] at hvisited
            obtain ⟨initialized, hget, hinitialized⟩ := hplace.assigned
            have hsent := hplace.sent hstore outcome rfl
            rw [keyTableIsNew, hget] at hsent
            rw [hvisited]
            cases initialized with
            | true => exact hinitialized rfl
            | false => cases hsent }
      · rw [hturn.entry]
        cases reply with
        | everythingOk =>
            rw [Conversation.holder]
            simpa using hentry
        | illegalOperation => exact hentry
      · rw [heffects]
        simp [Conversation.effects, Place.instructions]
  | dispatched heffects hqueued hmoved =>
      rw [hqueued] at hafter
      refine ⟨[], ?_⟩
      rw [List.append_nil]
      refine h.moves hbefore hkey hafter rfl (hmoved.leaves hturn) hmore hdone ?_
      rw [heffects]
      simp [Place.instructions, queuedPlace]

/-- A GET of a new key, while no request is about it. -/
theorem Serialized.creates (h : Serialized almacen key asked conversations)
    (hquiet : almacen.isQuiet key = true) (hnone : keyTableGet almacen.tables key = none)
    (habout : (next.about key).Perm (almacen.about key)) (hdone : next.done key = almacen.done key)
    (hcreated : next.tables = keyTablePut almacen.tables key (some ⟨false, none⟩)) :
    Serialized next key asked conversations := by
  obtain ⟨hnothing, hentry, hasked, hsofar⟩ := h.of_quiet hquiet
  have hholder : holder conversations = none := by
    cases hholder : holder conversations with
    | none => rfl
    | some node =>
        rw [hholder, hnone] at hentry
        cases hentry
  rw [hnothing] at habout
  refine ⟨hcreated ▸ h.sequence, [], [], ?_, ?_, ?_⟩
  · rw [List.perm_nil.mp habout, hholder]
    exact .quiet (.inr (hcreated ▸ keyTableGet_keyTablePut_self))
  · rw [hasked, List.append_nil]
  · rw [hdone, hsofar, List.append_nil]

/-- The request about the key goes on to its turn, or is instructed. -/
theorem Serialized.goesOn (h : Serialized almacen key asked conversations) {node : InstanceRef}
    {request : RequestNode} {stage later : Stage} (hkey : request.key = key)
    (hbefore : almacen.places.Perm (⟨node, request, stage⟩ :: rest))
    (hafter : next.places.Perm (⟨node, request, later⟩ :: rest))
    (hsent : request.type = .store → ∀ outcome, later = .answered outcome →
      keyTableIsNew almacen.tables request.key = false)
    (htables : next.tables = almacen.tables) {effects : List Effect}
    (hdone : next.done key = almacen.done key ++ effects)
    (hinstructions : (⟨node, request, later⟩ : Place).instructions =
      (⟨node, request, stage⟩ : Place).instructions ++ effects) :
    Serialized next key asked conversations := by
  obtain ⟨hplace, -, -, -⟩ := h.of_place hbefore hkey
  have hmoved : InFlight almacen.tables key (holder conversations) ⟨node, request, later⟩ :=
    ⟨hplace.sameKey, hplace.once, hplace.known, hplace.assigned, hplace.first,
      fun hstore outcome hstage => hkey ▸ hsent hstore outcome hstage⟩
  exact h.moves hbefore hkey hafter rfl (htables ▸ hmoved) (htables ▸ List.Subset.refl _) hdone
    hinstructions

/-- A STORE of a key that was never set ends at once. -/
theorem Serialized.refuses (h : Serialized almacen key asked conversations) {node : InstanceRef}
    {request : RequestNode} (hkey : request.key = key) (hstore : request.type = .store)
    (hbefore : almacen.places.Perm (⟨node, request, .handling⟩ :: rest))
    (hafter : next.places.Perm rest)
    (htables : next.tables = keyTableRemove almacen.tables request.key)
    (hlog : next.log = almacen.log ++
      tagged request.key [.replied request.requestingEsiFd .illegalOperation, .destroyed]) :
    ∃ more, Serialized next key asked (conversations ++ more) := by
  obtain ⟨hplace, -, -, -⟩ := h.of_place hbefore hkey
  have hdone := @done_of_log _ _ key _ _ hlog
  rw [if_pos hkey] at hdone
  refine ⟨[⟨request.requestingEsiFd, request.type, true, [], .illegalOperation⟩],
    h.ends hbefore hkey hafter rfl ?_ ?_ (htables ▸ List.Subset.refl _) hdone ?_⟩
  · exact ⟨List.nodup_nil, List.nil_subset _, Reply.noConfusion, fun _ => rfl,
      fun _ node hmem => absurd hmem List.not_mem_nil⟩
  · rw [htables, hkey]
    exact .inl keyTableGet_keyTableRemove
  · have hfirst : request.excludedInstances = [] := hplace.first hstore
    simp [Conversation.effects, Place.instructions, hfirst]

/-- **One step.** -/
theorem Serialized.step (h : Serialized almacen key asked conversations) {event : AlmacenEvent}
    (hturns : keepsTurns almacen event = true) (hmove : Move setup config almacen next event) :
    ∃ more, Serialized next key (asked ++ askedAbout key event) (conversations ++ more) := by
  have hstays : askedAbout key event = [] → Serialized next key asked conversations →
      ∃ more, Serialized next key (asked ++ askedAbout key event) (conversations ++ more) := by
    intro hnothing hnext
    refine ⟨[], ?_⟩
    rwa [hnothing, List.append_nil, List.append_nil]
  have hends : askedAbout key event = [] →
      (∃ more, Serialized next key asked (conversations ++ more)) →
      ∃ more, Serialized next key (asked ++ askedAbout key event) (conversations ++ more) := by
    intro hnothing hnext
    rwa [hnothing, List.append_nil]
  cases hmove.about key with
  | elsewhere hasked helsewhere => exact hstays hasked (h.untouched helsewhere)
  | exchangeElsewhere _ _ helsewhere => exact hstays rfl (h.untouched helsewhere)
  | creates hnone habout hdone htables =>
      exact hstays rfl (h.creates hturns hnone habout hdone htables)
  | asks =>
      rw [askedAbout, if_pos rfl]
      exact h.request hturns hmove
  | pop hkey hbefore hafter htables hlog =>
      refine hstays rfl (h.goesOn hkey hbefore hafter (fun _ outcome => Stage.noConfusion) htables
        ((done_of_log_eq hlog).trans (List.append_nil _).symm) ?_)
      rw [List.append_nil]
      rfl
  | exchange hkey hinitialized hbefore hafter htables hlog =>
      have hdone := @done_of_log _ _ key _ _ hlog
      rw [if_pos hkey] at hdone
      refine hstays rfl (h.goesOn hkey hbefore hafter (fun hstore _ _ => hinitialized hstore)
        htables hdone ?_)
      simp [Place.instructions]
  | refuseStore hkey hstore hbefore hafter htables hlog =>
      exact hends rfl (h.refuses hkey hstore hbefore hafter htables hlog)
  | conclude hkey hbefore hafter htables hlog =>
      exact hends rfl (h.concludes hkey hbefore hafter htables hlog)

end Steps

/-! ## Runs -/

section Runs

variable {setup : Setup} {config : InstanceRef → Instancia.Config} {almacen finish : AlmacenState}
  {mountPoints : InstanceRef → CString} {events : List AlmacenEvent}

theorem serialized_init (key : CString) :
    Serialized (AlmacenState.init config mountPoints) key [] [] :=
  ⟨.nil, [], [], .quiet (.inl rfl), rfl, rfl⟩

theorem Serialized.runs {key : CString} {asked : List (ℤ × RequestType)}
    {conversations : List Conversation} (h : Serialized almacen key asked conversations)
    (hrun : (almacenStep setup config).Runs
      (fun almacen event => keepsTurns almacen event = true) almacen events finish) :
    ∃ more, Serialized finish key (asked ++ events.flatMap (askedAbout key))
      (conversations ++ more) := by
  induction hrun generalizing asked conversations with
  | refl => exact ⟨[], by rwa [List.flatMap_nil, List.append_nil, List.append_nil]⟩
  | head hturns hstep _ ih =>
      obtain ⟨more, hnext⟩ := h.step hturns (move_of_almacenStep hstep)
      obtain ⟨later, hfinish⟩ := ih hnext
      refine ⟨more ++ later, ?_⟩
      rwa [List.flatMap_cons, ← List.append_assoc, ← List.append_assoc]

/-- **Requests about a key are answered one after another**, whatever the threads and the
instances do: in the order in which they were made, with one reply for each. -/
theorem serialized_of_runs (hrun : (almacenStep setup config).Runs
      (fun almacen event => keepsTurns almacen event = true) (AlmacenState.init config mountPoints)
      events finish) (key : CString) :
    ∃ conversations, Serialized finish key (events.flatMap (askedAbout key)) conversations := by
  obtain ⟨conversations, hfinish⟩ := (serialized_init key).runs hrun
  exact ⟨conversations, by simpa using hfinish⟩

end Runs

/-- Two instances are connected, and `a` is set and stored; the first instance is gone when
it is asked. -/
def setAndStore : List AlmacenEvent :=
  [.connect (literal [112]) 5 0 true true, .connect (literal [113]) 6 1 true true,
    .peer 0 (.thread (.recover [])), .peer 1 (.thread (.recover [])),
    .get (literal [97]), .request 9 (.set (literal [120])) (literal [97]),
    .pop 1, .exchange 1 .recvFailure, .conclude 1,
    .pop 0, .exchange 0 .answered, .conclude 0,
    .request 9 .store (literal [97]), .pop 0, .exchange 0 .answered, .conclude 0]

theorem serialized_setAndStore : ∃ finish,
    (almacenStep ⟨.el, insertionListSort⟩ fun _ => threeEntries).Runs
      (fun almacen event => keepsTurns almacen event = true)
      (AlmacenState.init (fun _ => threeEntries) fun _ => []) setAndStore finish ∧
    finish.done (literal [97]) = [.instruction 1, .instruction 0, .replied 9 .everythingOk,
      .destroyed, .instruction 0, .unblocked (literal [97]), .replied 9 .everythingOk,
      .destroyed] ∧
    ∃ conversations, Serialized finish (literal [97])
      [(9, .set (literal [120])), (9, .store)] conversations := by
  obtain ⟨finish, hrun, hcheck⟩ := PartialStep.exists_run_of_execute
    ((almacenStep ⟨.el, insertionListSort⟩ fun _ => threeEntries).guarded keepsTurns)
    (AlmacenState.init (fun _ => threeEntries) fun _ => []) setAndStore
    (fun finish => decide (finish.done (literal [97]) = [.instruction 1, .instruction 0,
      .replied 9 .everythingOk, .destroyed, .instruction 0, .unblocked (literal [97]),
      .replied 9 .everythingOk, .destroyed])) (by decide +kernel)
  have hguarded := PartialStep.runs_of_guarded hrun
  exact ⟨finish, hguarded, of_decide_eq_true hcheck, serialized_of_runs hguarded (literal [97])⟩

end SockMyPort.Almacen
