/-
# The state of an instance

The global variables of the instance's modules, collected in one record: the
entry table with its free counter, the storage, the status table of the
replacement algorithms with the circular pointer, and the dumper.
-/

import SockMyPort.Instancia.Dumper

namespace SockMyPort.Instancia

open SockMyPort.Commons

/-- `entry_t`. -/
structure Entry where
  number : ℕ
  size : ℕ
  key : CString
  deriving DecidableEq

/-- `entry_status`. -/
inductive EntryStatus
  | atomic
  | nonAtomic
  | free
  | used
  deriving DecidableEq, Repr

/-- `status_t`. -/
structure Status where
  status : EntryStatus
  key : CString
  /-- An `int`. -/
  lastReferenced : ℤ
  spaceUsed : ℤ
  deriving DecidableEq

/-- The global variables of an instance. -/
structure InstanceState where
  entryTable : List Entry
  entriesLeft : ℤ
  /-- `storage->data`. -/
  storage : List UInt8
  entryTableStatusGlobal : List Status
  algorithmCircularPointer : ℕ
  dumper : Dumper
  instanceIsAlive : Bool
  deriving DecidableEq

end SockMyPort.Instancia
