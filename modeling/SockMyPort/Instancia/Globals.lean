/-
# Data shared by the modules of the instance

The values received from the coordinator, the geometry of the storage, and the
status codes of the coordinator-instance protocol.
-/

import SockMyPort.Commons.Strings
import SockMyPort.Commons.Collections
import SockMyPort.Commons.Integers

namespace SockMyPort.Instancia

open SockMyPort.Commons

/-- `key_value_t`. Its only constructor in the program is `key_value_create`,
which measures the value and cuts the key. The size stays below `2 ^ 31`, since one
`recv` brings the whole value, or a file in which such a value was dumped. -/
structure KeyValue where
  key : CString
  value : CString
  size : ℕ
  size_eq : size = value.length
  key_short : key.length ≤ 40
  deriving DecidableEq

/-- `key_value_create`: `string_substring_until(key, 40)`, a copy of the value,
and the value's length. -/
def keyValueCreate (key value : CString) : KeyValue where
  key := key.take 40
  value := value
  size := value.length
  size_eq := rfl
  key_short := List.length_take_le 40 key

@[simp]
theorem keyValueCreate_value (key value : CString) : (keyValueCreate key value).value = value := rfl

@[simp]
theorem keyValueCreate_size (key value : CString) :
    (keyValueCreate key value).size = value.length := rfl

theorem keyValueCreate_key {key value : CString} (hshort : key.length ≤ 40) :
    (keyValueCreate key value).key = key := List.take_of_length_le hshort

/-- `key_value_generator`: a key with a filler value of the given size. -/
def keyValueGenerator (key : CString) (size : ℕ) : KeyValue :=
  keyValueCreate key (stringRepeatX size)

@[simp]
theorem keyValueGenerator_size (key : CString) (size : ℕ) :
    (keyValueGenerator key size).size = size := by
  simp [keyValueGenerator]

theorem keyValueGenerator_key {key : CString} (size : ℕ) (hshort : key.length ≤ 40) :
    (keyValueGenerator key size).key = key := keyValueCreate_key hshort

/-- `storage_setup_t`. Both numbers are positive. They reach the instance from
`int` fields of the coordinator's configuration, which keeps both below `2 ^ 31`; it
matters for the number of entries, with which an `int` is compared. -/
structure StorageSetup where
  totalEntries : ℕ
  entrySize : ℕ
  totalEntries_pos : 0 < totalEntries
  entrySize_pos : 0 < entrySize
  totalEntries_lt : totalEntries < 2 ^ 31

/-- `status_ci`. -/
inductive StatusCi
  | compact
  | ok
  | replaced
  | noSpace
  | error
  deriving DecidableEq, Repr

/-- The value of an enumerator. -/
def statusCode : StatusCi → ℤ
  | .compact => 2
  | .ok => 1
  | .replaced => 0
  | .noSpace => -1
  | .error => -2

/-- The letter by which `cfg_instancia_get_replacement_algorithm_id` names the
replacement algorithm; `unknown` is its `'U'`. -/
inductive AlgorithmId
  | circular
  | lru
  | bsu
  | unknown
  deriving DecidableEq, Repr

/-- What an instance knows when it starts: the geometry of the storage, the
configured algorithm, and the library's sort. -/
structure Config where
  setup : StorageSetup
  replacementAlgorithm : AlgorithmId
  sort : ListSort

/-- `get_total_entries`. -/
abbrev Config.totalEntries (config : Config) : ℕ := config.setup.totalEntries

/-- `get_entry_size`. -/
abbrev Config.entrySize (config : Config) : ℕ := config.setup.entrySize

theorem Config.entrySize_pos (config : Config) : 0 < config.entrySize :=
  config.setup.entrySize_pos

theorem Config.totalEntries_pos (config : Config) : 0 < config.totalEntries :=
  config.setup.totalEntries_pos

end SockMyPort.Instancia
