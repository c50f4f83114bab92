/-
# Compaction

`compactation_compact` takes every entry out of the table and inserts it again
at the first place where it fits, while it walks over the same table by index.
-/

import SockMyPort.Instancia.Storage
import SockMyPort.Instancia.Algorithms

namespace SockMyPort.Instancia

open SockMyPort.Commons

variable (config : Config)

/-- Take one entry out of both tables and put it back where it fits. The value
is copied out of the storage first, so that the copy back may overlap it. No
entry is inserted at the index `-1`; the search never returns it here, because
the place that the entry leaves is free. -/
def compactEntry (state : InstanceState) (entry : Entry) : InstanceState :=
  let value := storageRetrieve config state entry.number entry.size
  let keyValue := keyValueGenerator entry.key entry.size
  let deleted := entryTableDelete config state keyValue
  let cleared :=
    { deleted with
      entryTableStatusGlobal :=
        entryTableStatusDeleteKv config deleted.entryTableStatusGlobal keyValue }
  match entryTableNextEntry config cleared keyValue with
  | none =>
      { cleared with
        entryTableStatusGlobal :=
          entryTableStatusAddKv config cleared.entryTableStatusGlobal keyValue none }
  | some nextEntry =>
      let inserted := entryTableInsert config cleared nextEntry keyValue
      let added :=
        { inserted with
          entryTableStatusGlobal :=
            entryTableStatusAddKv config inserted.entryTableStatusGlobal keyValue nextEntry }
      (storageSet config added nextEntry value entry.size).getD added

/-- One turn of the loop; the bound is read again on every turn. -/
def compactTurn (state : InstanceState) (i : ℕ) : InstanceState :=
  match state.entryTable[i]? with
  | some entry => compactEntry config state entry
  | none => state

/-- The state after the first `turns` turns. The table never grows, so that as
many turns as it has entries are all of them. -/
def compactTurns (state : InstanceState) : ℕ → InstanceState
  | 0 => state
  | turns + 1 => compactTurn config (compactTurns state turns) turns

/-- `compactation_compact`. -/
def compactationCompact (state : InstanceState) : InstanceState :=
  compactTurns config state state.entryTable.length

end SockMyPort.Instancia
