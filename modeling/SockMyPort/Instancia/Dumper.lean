/-
# The dumper

Values are persisted in one file per key under the mount point. The dumper
keeps a dictionary from keys to open descriptors. The operating system is
modelled by the directory, which names files, by the contents of the files, and
by the table of open descriptors: `open` hands out the lowest free descriptor
and `close` gives one back, so that a descriptor can come to denote another
file.
-/

import SockMyPort.Instancia.Globals

namespace SockMyPort.Instancia

open SockMyPort.Commons

/-- `dumper_t` together with the part of the system that it acts on. -/
structure Dumper where
  mountPoint : CString
  fileDictionary : List (CString × ℕ)
  /-- File names and the files that they denote. -/
  directory : List (CString × ℕ)
  /-- The contents of every file ever created, also after its removal. -/
  contents : List (ℕ × List UInt8)
  /-- Open descriptors. The descriptors that are not of a file of the dumper,
  such as the standard ones and the sockets, carry `none`. -/
  descriptors : List (ℕ × Option ℕ)
  deriving DecidableEq

/-- `dumper_init` on an empty directory: the standard descriptors are open. -/
def dumperInit (mountPoint : CString) : Dumper where
  mountPoint := mountPoint
  fileDictionary := []
  directory := []
  contents := []
  descriptors := [(0, none), (1, none), (2, none)]

/-- The lowest descriptor that is not open; one of the first `length + 1`
numbers is always free. -/
def lowestFree (descriptors : List (ℕ × Option ℕ)) : ℕ :=
  ((List.range (descriptors.length + 1)).find? fun fd =>
    !dictionaryHasKey descriptors fd).getD descriptors.length

/-- `_get_key_value_file_name`: `<mount point><key>.txt`. -/
def getKeyValueFileName (dumper : Dumper) (key : CString) : CString :=
  dumper.mountPoint ++ key ++ literal [46, 116, 120, 116]

/-- `dumper_create_key_value`: open the key's file, creating it if needed, and
remember its descriptor. -/
def dumperCreateKeyValue (dumper : Dumper) (key : CString) : Dumper × ℕ :=
  let fileName := getKeyValueFileName dumper key
  let fd := lowestFree dumper.descriptors
  match dictionaryGet dumper.directory fileName with
  | some file =>
      ({ dumper with
          descriptors := (fd, some file) :: dumper.descriptors
          fileDictionary := dictionaryPut dumper.fileDictionary key fd }, fd)
  | none =>
      let file := dumper.contents.length
      ({ dumper with
          directory := (fileName, file) :: dumper.directory
          contents := (file, []) :: dumper.contents
          descriptors := (fd, some file) :: dumper.descriptors
          fileDictionary := dictionaryPut dumper.fileDictionary key fd }, fd)

/-- `dumper_remove_key_value`: close the descriptor found in the dictionary,
which reads as `0` when the key has none, and unlink the file. -/
def dumperRemoveKeyValue (dumper : Dumper) (key : CString) : Dumper :=
  let keyFd := (dictionaryGet dumper.fileDictionary key).getD 0
  { dumper with
      fileDictionary := dictionaryRemove dumper.fileDictionary key
      descriptors := dictionaryRemove dumper.descriptors keyFd
      directory := dictionaryRemove dumper.directory (getKeyValueFileName dumper key) }

/-- `dumper_store`: resize the file behind the key's descriptor and copy the
data over it. A descriptor of no file of the dumper changes no file. -/
def dumperStore (dumper : Dumper) (key : CString) (data : List UInt8) : Dumper :=
  let (opened, fdKey) :=
    match dictionaryGet dumper.fileDictionary key with
    | some fd => (dumper, fd)
    | none => dumperCreateKeyValue dumper key
  match dictionaryGet opened.descriptors fdKey with
  | some (some file) => { opened with contents := dictionaryPut opened.contents file data }
  | _ => opened

end SockMyPort.Instancia
