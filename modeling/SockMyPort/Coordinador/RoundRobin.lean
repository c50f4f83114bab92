/-
# Equitative load

Under `EL` an unassigned key goes to the first available instance of the list, which is
then moved to the end. New instances enter at the front and a reconnection keeps the
node and its place, so that the list is a rotation: it is ordered by the time that has
passed since each instance was selected.
-/

import SockMyPort.Library.Rotation
import SockMyPort.Library.Runs
import SockMyPort.Coordinador.Distribution

namespace SockMyPort.Coordinador

open SockMyPort.Commons Library

/-! ## Connections -/

/-- `instance_list_get_by_name`. -/
def instanceListGetByName (tables : Tables) (name : CString) : Option InstanceRef :=
  tables.instanceList.find? fun node => (tables.nodes node).name = name

/-- `instance_list_add`, given the node that `instance_list_node_create` allocates if it
is called, and whether the test of an old connection succeeds. -/
def instanceListAdd (tables : Tables) (name : CString) (fd : ℤ) (created : InstanceRef)
    (testConnection : Bool) : Option InstanceRef × Tables :=
  match instanceListGetByName tables name with
  | none =>
      (some created,
        { tables with
          nodes := Function.update tables.nodes created ⟨name, fd, 0⟩
          instanceList := created :: tables.instanceList })
  | some node =>
      if (tables.nodes node).fd = disconnected || !testConnection then
        (some node,
          { tables with
            nodes := Function.update tables.nodes node { tables.nodes node with fd := fd } })
      else (none, tables)

/-! ## Runs -/

/-- The tables, the nodes that were created, and the instances that were selected for
unassigned keys, the latest first. -/
structure LoadState where
  tables : Tables
  created : List InstanceRef
  selected : List InstanceRef

/-- What can happen. A node that is allocated is not one of the list. -/
inductive LoadEvent
  | connect (name : CString) (fd : ℤ) (created : InstanceRef) (testConnection : Bool)
  | disconnect (name : CString)
  | dispatch (key : CString) (excludedInstances : List InstanceRef)

/-- No instance is connected that has the key. -/
def isUnassigned (tables : Tables) (key : CString) : Bool :=
  (keyTableGetInstance tables key).all fun node => !instanceIsConnected tables node

/-- One event. -/
def loadStep (setup : Setup) : PartialStep LoadState LoadEvent := fun state event =>
  match event with
  | .connect name fd created testConnection =>
      if state.tables.instanceList.contains created then none
      else
        let (_, tables) := instanceListAdd state.tables name fd created testConnection
        some { state with
          tables := tables
          created :=
            if (instanceListGetByName state.tables name).isNone then created :: state.created
            else state.created }
  | .disconnect name => some { state with tables := instanceListRemove state.tables name }
  | .dispatch key excludedInstances =>
      let (node, tables) := dispatch setup state.tables key excludedInstances
      some { state with
        tables := tables
        selected := if isUnassigned state.tables key then node.toList ++ state.selected
          else state.selected }

/-- The coordinator before the first connection. -/
def LoadState.init : LoadState where
  tables :=
    { nodes := fun _ => ⟨[], disconnected, 0⟩, instanceList := [], keyTable := fun _ => none }
  created := []
  selected := []

/-! ## The policy -/

variable {sort : ListSort} {state next : LoadState} {tables : Tables} {key : CString}
  {excluded : List InstanceRef} {node : InstanceRef}

/-- The policy `EL`. -/
def elSetup (sort : ListSort) : Setup := ⟨.el, sort⟩

/-- A key that is unassigned goes to the first available instance. -/
theorem dispatch_unassigned (sort : ListSort) (excluded : List InstanceRef)
    (hunassigned : isUnassigned tables key = true) :
    ∃ cleared, cleared.nodes = tables.nodes ∧ cleared.instanceList = tables.instanceList ∧
      dispatch (elSetup sort) tables key excluded = popAndPush cleared key excluded := by
  cases hget : keyTableGetInstance tables key with
  | none => exact ⟨tables, rfl, rfl, by simp only [dispatch, hget]; rfl⟩
  | some node =>
      have hlost : instanceIsConnected tables node = false := by
        simpa [isUnassigned, hget] using hunassigned
      exact ⟨keyTableRemove tables key, rfl, rfl, by simp [dispatch, hget, hlost]; rfl⟩

/-- A key that is assigned stays where it is. -/
theorem dispatch_assigned (hassigned : ¬ isUnassigned tables key = true) :
    (dispatch (elSetup sort) tables key excluded).2 = tables := by
  cases hget : keyTableGetInstance tables key with
  | none => simp [isUnassigned, hget] at hassigned
  | some node =>
      have hconnected : instanceIsConnected tables node = true := by
        simpa [isUnassigned, hget] using hassigned
      simp [dispatch, hget, hconnected]

/-- What a dispatch of an unassigned key does to the list. -/
theorem dispatch_unassigned_cases (sort : ListSort) (excluded : List InstanceRef)
    (hunassigned : isUnassigned tables key = true) :
    (tables.instanceList.find? (instanceIsAvailable tables excluded) = none ∧
        (dispatch (elSetup sort) tables key excluded).1 = none ∧
        (dispatch (elSetup sort) tables key excluded).2.nodes = tables.nodes ∧
        (dispatch (elSetup sort) tables key excluded).2.instanceList = tables.instanceList) ∨
      ∃ node, tables.instanceList.find? (instanceIsAvailable tables excluded) = some node ∧
        (dispatch (elSetup sort) tables key excluded).1 = some node ∧
        (dispatch (elSetup sort) tables key excluded).2.nodes = tables.nodes ∧
        (dispatch (elSetup sort) tables key excluded).2.instanceList =
          tables.instanceList.eraseP (instanceIsAvailable tables excluded) ++ [node] := by
  obtain ⟨cleared, hnodes, hlist, hdispatch⟩ :=
    dispatch_unassigned sort excluded hunassigned
  have havailable : instanceIsAvailable cleared excluded = instanceIsAvailable tables excluded := by
    funext node
    simp only [instanceIsAvailable, instanceIsConnected, hnodes]
  rw [hdispatch, popAndPush, instanceListPop, hlist, havailable]
  cases hfind : tables.instanceList.find? (instanceIsAvailable tables excluded) with
  | none =>
      have hnone : ∀ node ∈ tables.instanceList,
          ¬ instanceIsAvailable tables excluded node = true := by
        simpa using hfind
      exact .inl ⟨rfl, rfl, hnodes, List.eraseP_of_forall_not hnone⟩
  | some node =>
      refine .inr ⟨node, rfl, rfl, ?_, ?_⟩
      · rw [keyTableCreateKey_nodes]
        exact hnodes
      · rw [keyTableCreateKey_instanceList]
        rfl

/-! ## The invariant -/

/-- The list is a rotation of all nodes that were created, and their names are
different. -/
structure Rotating (state : LoadState) : Prop where
  rotation : Rotation state.tables.instanceList state.selected
  kept : state.tables.instanceList.Perm state.created
  names : (state.tables.instanceList.map fun node => (state.tables.nodes node).name).Nodup

/-- Only names of nodes of the list are read. -/
theorem Rotating.of_names (hrotating : Rotating state) {nodes : InstanceRef → Instance}
    {keyTable : CString → Option KeyTableData}
    (hnames : ∀ node, (nodes node).name = (state.tables.nodes node).name) :
    Rotating { state with tables := ⟨nodes, state.tables.instanceList, keyTable⟩ } :=
  ⟨hrotating.rotation, hrotating.kept, by simpa only [hnames] using hrotating.names⟩

/-- A change of a socket keeps the names. -/
theorem name_update (nodes : InstanceRef → Instance) (changed node : InstanceRef) (fd : ℤ) :
    (Function.update nodes changed { nodes changed with fd := fd } node).name =
      (nodes node).name := by
  by_cases hsame : node = changed
  · rw [hsame, Function.update_self]
  · rw [Function.update_of_ne hsame]

theorem rotating_connect {name : CString} {fd : ℤ} {created : InstanceRef}
    {testConnection : Bool} (hrotating : Rotating state)
    (hstep : loadStep (elSetup sort) state (.connect name fd created testConnection) = some next) :
    Rotating next := by
  simp only [loadStep] at hstep
  split at hstep
  · cases hstep
  · rename_i hcontains
    have hnew : created ∉ state.tables.instanceList := by simpa using hcontains
    cases hget : instanceListGetByName state.tables name with
    | some node =>
        rw [← Option.some.inj hstep]
        simp only [instanceListAdd, hget]
        split
        · exact hrotating.of_names fun other => name_update _ node other fd
        · exact hrotating
    | none =>
        rw [← Option.some.inj hstep]
        simp only [instanceListAdd, hget]
        have hother : ∀ node ∈ state.tables.instanceList,
            (state.tables.nodes node).name ≠ name := by
          simpa [instanceListGetByName] using hget
        have hkeep : ∀ node ∈ state.tables.instanceList,
            Function.update state.tables.nodes created ⟨name, fd, 0⟩ node =
              state.tables.nodes node := fun node hmem =>
          Function.update_of_ne (fun heq : node = created => hnew (heq ▸ hmem)) _ _
        refine ⟨hrotating.rotation.enter hnew, hrotating.kept.cons created, ?_⟩
        have hnames : state.tables.instanceList.map (fun node =>
            (Function.update state.tables.nodes created ⟨name, fd, 0⟩ node).name) =
            state.tables.instanceList.map fun node => (state.tables.nodes node).name :=
          List.map_congr_left fun node hmem => congrArg Instance.name (hkeep node hmem)
        simp only [List.map_cons, Function.update_self]
        rw [hnames]
        refine List.nodup_cons.mpr ⟨fun hmem => ?_, hrotating.names⟩
        obtain ⟨node, hnode, hname⟩ := List.mem_map.mp hmem
        exact hother node hnode hname

theorem rotating_disconnect {name : CString} (hrotating : Rotating state)
    (hstep : loadStep (elSetup sort) state (.disconnect name) = some next) : Rotating next := by
  rw [← Option.some.inj hstep]
  simp only [instanceListRemove]
  split
  · exact hrotating
  · rename_i victim _
    exact hrotating.of_names fun other => name_update _ victim other disconnected

theorem loadStep_dispatch (setup : Setup) (state : LoadState) (key : CString)
    (excluded : List InstanceRef) :
    loadStep setup state (.dispatch key excluded) = some { state with
      tables := (dispatch setup state.tables key excluded).2
      selected := if isUnassigned state.tables key then
        (dispatch setup state.tables key excluded).1.toList ++ state.selected
        else state.selected } := rfl

theorem rotating_dispatch (hrotating : Rotating state)
    (hstep : loadStep (elSetup sort) state (.dispatch key excluded) = some next) :
    Rotating next := by
  rw [loadStep_dispatch] at hstep
  obtain rfl := Option.some.inj hstep
  by_cases hunassigned : isUnassigned state.tables key = true
  · simp only [if_pos hunassigned]
    obtain ⟨-, hnode, hnodes, hlist⟩ | ⟨node, hfind, hnode, hnodes, hlist⟩ :=
      dispatch_unassigned_cases sort excluded hunassigned
    · rw [hnode]
      exact ⟨by rw [hlist]; exact hrotating.rotation, by rw [hlist]; exact hrotating.kept,
        by rw [hlist, hnodes]; exact hrotating.names⟩
    · have hperm := perm_eraseP_append hfind
      rw [hnode]
      exact ⟨by rw [hlist]; exact hrotating.rotation.turn hfind,
        by rw [hlist]; exact hperm.trans hrotating.kept,
        by rw [hlist, hnodes]; exact (hperm.map _).nodup_iff.mpr hrotating.names⟩
  · simp only [if_neg hunassigned]
    rw [dispatch_assigned hunassigned]
    exact hrotating

theorem rotating_loadStep {event : LoadEvent} (hrotating : Rotating state)
    (hstep : loadStep (elSetup sort) state event = some next) : Rotating next := by
  cases event with
  | connect name fd created testConnection => exact rotating_connect hrotating hstep
  | disconnect name => exact rotating_disconnect hrotating hstep
  | dispatch key excluded => exact rotating_dispatch hrotating hstep

theorem rotating_init : Rotating LoadState.init :=
  ⟨rotation_nil, .refl _, List.nodup_nil⟩

/-! ## The result -/

/-- Round robin: names are different, no node is lost or twice in the list, and an
unassigned key goes to an available instance, if there is one, that was selected the
longest ago, or never. -/
structure RoundRobin (setup : Setup) (state : LoadState) : Prop where
  names : ∀ first ∈ state.tables.instanceList, ∀ second ∈ state.tables.instanceList,
    (state.tables.nodes first).name = (state.tables.nodes second).name → first = second
  nodup : state.tables.instanceList.Nodup
  kept : state.tables.instanceList.Perm state.created
  selects : ∀ key excluded, isUnassigned state.tables key = true →
    (∃ node ∈ state.tables.instanceList, instanceIsAvailable state.tables excluded node = true) →
    ∃ node, (dispatch setup state.tables key excluded).1 = some node ∧
      node ∈ state.tables.instanceList ∧ instanceIsAvailable state.tables excluded node = true ∧
      ∀ other ∈ state.tables.instanceList, instanceIsAvailable state.tables excluded other = true →
        age state.selected other ≤ age state.selected node

theorem Rotating.roundRobin (hrotating : Rotating state) : RoundRobin (elSetup sort) state where
  names _ hfirst _ hsecond hname := List.inj_on_of_nodup_map hrotating.names hfirst hsecond hname
  nodup := hrotating.rotation.nodup
  kept := hrotating.kept
  selects key excluded hunassigned hsome := by
    obtain ⟨hnone, -⟩ | ⟨node, hfind, hnode, -⟩ :=
      dispatch_unassigned_cases sort excluded hunassigned
    · obtain ⟨node, hmem, havailable⟩ := hsome
      exact absurd havailable (List.find?_eq_none.mp hnone node hmem)
    · exact ⟨node, hnode, List.mem_of_find?_eq_some hfind, List.find?_some hfind,
        fun other hother havailable => hrotating.rotation.oldest hfind hother havailable⟩

/-- **Equitative load is round robin** in every state of every run. -/
theorem roundRobin_of_runs {finish : LoadState} {events : List LoadEvent}
    (hrun : (loadStep (elSetup sort)).FreeRuns LoadState.init events finish) :
    RoundRobin (elSetup sort) finish :=
  (hrun.invariant Rotating (fun hinv _ hstep => rotating_loadStep hinv hstep)
    rotating_init).roundRobin

/-- An instance that dies and comes back keeps its turn. -/
theorem roundRobin_of_runs_reconnect :
    ∃ finish, (loadStep (elSetup insertionListSort)).FreeRuns LoadState.init
        [.connect [⟨97, by decide⟩] 5 0 true, .connect [⟨98, by decide⟩] 6 1 true,
          .dispatch [⟨107, by decide⟩] [], .disconnect [⟨97, by decide⟩],
          .connect [⟨97, by decide⟩] 7 2 true] finish ∧
      finish.tables.instanceList = [0, 1] ∧ finish.selected = [1] ∧
      RoundRobin (elSetup insertionListSort) finish := by
  obtain ⟨finish, hrun, hcheck⟩ := PartialStep.exists_run_of_execute
    (loadStep (elSetup insertionListSort)) LoadState.init
    [.connect [⟨97, by decide⟩] 5 0 true, .connect [⟨98, by decide⟩] 6 1 true,
      .dispatch [⟨107, by decide⟩] [], .disconnect [⟨97, by decide⟩],
      .connect [⟨97, by decide⟩] 7 2 true]
    (fun state => state.tables.instanceList = [0, 1] && state.selected = [1]) (by decide)
  obtain ⟨hlist, hselected⟩ := Bool.and_eq_true_iff.mp hcheck
  exact ⟨finish, hrun, of_decide_eq_true hlist, of_decide_eq_true hselected,
    roundRobin_of_runs hrun⟩

end SockMyPort.Coordinador
