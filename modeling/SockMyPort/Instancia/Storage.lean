/-
# The storage

The functions of `storage.c`: one block of `entries * entry_size` bytes, in
which a value begins at a multiple of the entry size. The only bound on a write
is the end of the block.
-/

import SockMyPort.Instancia.State
import SockMyPort.Library.Bytes

namespace SockMyPort.Instancia

open SockMyPort.Commons Library

variable (config : Config)

/-- `storage_init`: `calloc` of the whole block. -/
def storageInit (state : InstanceState) : InstanceState :=
  { state with storage := List.replicate (config.totalEntries * config.entrySize) 0 }

/-- `storage_set` of the first `size` bytes behind `value`: `none` is
`STRG_ERROR_SET`, returned before any byte is written. -/
def storageSet (state : InstanceState) (nextEntry : ℕ) (value : List UInt8) (size : ℕ) :
    Option InstanceState :=
  let pointer := nextEntry * config.entrySize
  if pointer + size > config.totalEntries * config.entrySize then none
  else some { state with storage := writeCells state.storage pointer (value.take size) }

/-- `storage_retrieve`. -/
def storageRetrieve (state : InstanceState) (entry valueSize : ℕ) : List UInt8 :=
  readCells state.storage (entry * config.entrySize) valueSize

/-- `storage_retrieve_string`: the bytes followed by a terminator, as a string. -/
def storageRetrieveString (state : InstanceState) (entry valueSize : ℕ) : CString :=
  stringOf (storageRetrieve config state entry valueSize ++ [0])

end SockMyPort.Instancia
