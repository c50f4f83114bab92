/-
# The tables of the coordinator

`instance-list.c` and `key-table.c`. The nodes of instances are shared by the list,
the key table and the lists of excluded instances, so that each has a name of its
own and the list holds names. A dictionary is a map. Locks are left out: what is done
under one lock is one function here.
-/

import SockMyPort.Commons.Strings
import SockMyPort.Commons.Collections

namespace SockMyPort.Coordinador

open SockMyPort.Commons

/-- A pointer to a node of the list of instances. -/
abbrev InstanceRef := ℕ

/-- `struct instance_t`, without its lock and its queue. -/
structure Instance where
  name : CString
  fd : ℤ
  usedEntries : ℕ
  deriving DecidableEq

/-- `DISCONNECTED`. -/
def disconnected : ℤ := -1

/-- `struct key_table_data_t`. -/
structure KeyTableData where
  initialized : Bool
  instanceRef : Option InstanceRef
  deriving DecidableEq

/-- The list of instances, with the nodes that are pointed to, and the key table. -/
structure Tables where
  nodes : InstanceRef → Instance
  instanceList : List InstanceRef
  keyTable : CString → Option KeyTableData

/-! ## The list of instances -/

/-- `instance_is_connected`. -/
def instanceIsConnected (tables : Tables) (node : InstanceRef) : Bool :=
  (tables.nodes node).fd ≠ disconnected

/-- `instance_is_available`; `NULL` excludes nobody. -/
def instanceIsAvailable (tables : Tables) (excludedInstances : List InstanceRef)
    (node : InstanceRef) : Bool :=
  !excludedInstances.contains node && instanceIsConnected tables node

/-- `instance_list_size`. -/
def instanceListSize (tables : Tables) (excludedInstances : List InstanceRef) : ℕ :=
  tables.instanceList.countP (instanceIsAvailable tables excludedInstances)

/-- The predicate of `instance_list_get_by_index` counts the available instances
that it has seen. -/
def findWithIndex (isAvailable : InstanceRef → Bool) (index : ℤ) :
    ℤ → List InstanceRef → Option InstanceRef
  | _, [] => none
  | i, node :: nodes =>
      if isAvailable node then
        if i = index then some node else findWithIndex isAvailable index (i + 1) nodes
      else findWithIndex isAvailable index i nodes

/-- `instance_list_get_by_index`. -/
def instanceListGetByIndex (tables : Tables) (index : ℤ)
    (excludedInstances : List InstanceRef) : Option InstanceRef :=
  findWithIndex (instanceIsAvailable tables excludedInstances) index 0 tables.instanceList

/-- `instance_list_pop`. -/
def instanceListPop (tables : Tables) (excludedInstances : List InstanceRef) :
    Option InstanceRef × Tables :=
  (tables.instanceList.find? (instanceIsAvailable tables excludedInstances),
    { tables with
      instanceList := listRemoveByCondition tables.instanceList
        (instanceIsAvailable tables excludedInstances) })

/-- `instance_list_push`. -/
def instanceListPush (tables : Tables) (node : InstanceRef) : Tables :=
  { tables with instanceList := tables.instanceList ++ [node] }

/-- `instance_list_sort`. -/
def instanceListSort (sort : ListSort) (tables : Tables)
    (comparator : InstanceRef → InstanceRef → Bool) : Tables :=
  { tables with instanceList := sort.listSort comparator tables.instanceList }

/-- `instance_list_remove`: the first node of that name is marked as disconnected. -/
def instanceListRemove (tables : Tables) (name : CString) : Tables :=
  match tables.instanceList.find? fun node => (tables.nodes node).name = name with
  | none => tables
  | some victim =>
      { tables with
        nodes := Function.update tables.nodes victim
          { tables.nodes victim with fd := disconnected } }

/-! ## The key table -/

/-- `key_table_get`. -/
def keyTableGet (tables : Tables) (key : CString) : Option KeyTableData := tables.keyTable key

/-- `dictionary_put` and `dictionary_remove_and_destroy` on the key table. -/
def keyTablePut (tables : Tables) (key : CString) (data : Option KeyTableData) : Tables :=
  { tables with keyTable := Function.update tables.keyTable key data }

/-- `key_table_create_key`: an existing node keeps whether it is initialized. -/
def keyTableCreateKey (tables : Tables) (key : CString) (node : Option InstanceRef) : Tables :=
  match keyTableGet tables key, node with
  | none, _ => keyTablePut tables key (some ⟨false, node⟩)
  | some data, some node => keyTablePut tables key (some { data with instanceRef := some node })
  | some _, none => tables

/-- `key_table_remove`. -/
def keyTableRemove (tables : Tables) (key : CString) : Tables := keyTablePut tables key none

/-- `key_table_get_instance`. -/
def keyTableGetInstance (tables : Tables) (key : CString) : Option InstanceRef :=
  (keyTableGet tables key).bind KeyTableData.instanceRef

/-- `key_table_is_new`. -/
def keyTableIsNew (tables : Tables) (key : CString) : Bool :=
  (keyTableGet tables key).any fun data => !data.initialized

/-- `key_table_set_initialized`. -/
def keyTableSetInitialized (tables : Tables) (key : CString) : Tables :=
  match keyTableGet tables key with
  | none => tables
  | some data => keyTablePut tables key (some { data with initialized := true })

/-! ## What the functions leave -/

section Lemmas

variable {tables : Tables} {key other : CString} {data : Option KeyTableData}

@[simp]
theorem keyTableGet_keyTablePut_self :
    keyTableGet (keyTablePut tables key data) key = data := by
  simp [keyTableGet, keyTablePut]

theorem keyTableGet_keyTablePut_of_ne (hne : other ≠ key) :
    keyTableGet (keyTablePut tables key data) other = keyTableGet tables other := by
  simp [keyTableGet, keyTablePut, hne]

@[simp]
theorem keyTablePut_nodes : (keyTablePut tables key data).nodes = tables.nodes := rfl

@[simp]
theorem keyTablePut_instanceList :
    (keyTablePut tables key data).instanceList = tables.instanceList := rfl

@[simp]
theorem keyTableGet_keyTableRemove : keyTableGet (keyTableRemove tables key) key = none :=
  keyTableGet_keyTablePut_self

/-- A key that is created with a node has that node. -/
theorem keyTableGet_keyTableCreateKey (node : InstanceRef) :
    keyTableGet (keyTableCreateKey tables key (some node)) key =
      some ⟨(keyTableGet tables key).any KeyTableData.initialized, some node⟩ := by
  cases hget : keyTableGet tables key <;> simp [keyTableCreateKey, hget]

@[simp]
theorem keyTableCreateKey_nodes (node : InstanceRef) :
    (keyTableCreateKey tables key (some node)).nodes = tables.nodes := by
  cases hget : keyTableGet tables key <;> simp [keyTableCreateKey, hget]

@[simp]
theorem keyTableCreateKey_instanceList (node : InstanceRef) :
    (keyTableCreateKey tables key (some node)).instanceList = tables.instanceList := by
  cases hget : keyTableGet tables key <;> simp [keyTableCreateKey, hget]

/-- The counting predicate finds the available instance of that index. -/
theorem findWithIndex_eq (isAvailable : InstanceRef → Bool) (index i : ℤ)
    (nodes : List InstanceRef) :
    findWithIndex isAvailable index i nodes =
      if i ≤ index then (nodes.filter isAvailable)[(index - i).toNat]? else none := by
  induction nodes generalizing i with
  | nil => simp [findWithIndex]
  | cons node nodes ih =>
      cases havailable : isAvailable node with
      | false => simp [findWithIndex, havailable, ih]
      | true =>
          rw [List.filter_cons_of_pos havailable, findWithIndex, if_pos havailable]
          rcases lt_trichotomy i index with hlt | heq | hgt
          · have hnext : (index - i).toNat = (index - (i + 1)).toNat + 1 := by omega
            rw [if_neg hlt.ne, ih, if_pos (by omega), if_pos hlt.le, hnext,
              List.getElem?_cons_succ]
          · simp [heq]
          · rw [if_neg hgt.ne', ih, if_neg (by omega), if_neg (by omega)]

end Lemmas

end SockMyPort.Coordinador
