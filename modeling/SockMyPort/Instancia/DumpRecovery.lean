/-
# Dump and recovery

The dumper of an instance that starts again reads the names of the files under the mount
point, and recovers the requested keys among them. Keys are compared with these names
ignoring case, but files are opened, and created, by their exact names. The dumper is
followed as a map from keys to the values that are persisted.
-/

import SockMyPort.Commons.Dictionary
import SockMyPort.Instancia.Dumper
import SockMyPort.Library.Runs
import Mathlib.Data.List.Infix

namespace SockMyPort.Instancia

open SockMyPort.Commons Library

/-! ## Recovery -/

/-- The suffix of the names of all files. -/
def txtSuffix : CString := literal [46, 116, 120, 116]

/-- `_get_file_name_key_value`. -/
def getFileNameKeyValue (fileName : CString) : CString :=
  if txtSuffix <:+: fileName then fileName.take (fileName.length - 4) else []

/-- `dumper_get_stored_keys`. The directory is read by names without the mount point;
its entries for itself and its parent have no suffix. -/
def dumperGetStoredKeys (dumper : Dumper) : List CString :=
  (dumper.directory.map fun node =>
    getFileNameKeyValue (node.1.drop dumper.mountPoint.length)).filter fun key => !key.isEmpty

/-- `messenger_bytes_to_string`, which adds a terminator. -/
def messengerBytesToString (bytes : List UInt8) : CString := stringOf (bytes ++ [0])

/-- `_get_stored_value` of a file that has just been opened. -/
def getStoredValue (dumper : Dumper) (keyFd : ℕ) : List UInt8 :=
  match dictionaryGet dumper.descriptors keyFd with
  | some (some file) => (dictionaryGet dumper.contents file).getD []
  | _ => []

/-- `_recover_key_value`. -/
def recoverKeyValue (dumper : Dumper) (key : CString) : Dumper × KeyValue :=
  let (opened, fdKey) := dumperCreateKeyValue dumper key
  (opened, keyValueCreate key (messengerBytesToString (getStoredValue opened fdKey)))

/-- The body of the loop of `dumper_recover`, with the keys that were stored before it. -/
def recoverStep (storedKeys : List CString) (recovered : Dumper × List KeyValue)
    (key : CString) : Dumper × List KeyValue :=
  if storedKeys.any (stringEqualsIgnoreCase key) then
    let (opened, keyValue) := recoverKeyValue recovered.1 key
    (opened, recovered.2 ++ [keyValue])
  else recovered

/-- `dumper_recover`. -/
def dumperRecover (dumper : Dumper) (keys : List CString) : Dumper × List KeyValue :=
  keys.foldl (recoverStep (dumperGetStoredKeys dumper)) (dumper, [])

/-- `dumper_init` on the directory that an earlier process left. -/
def dumperRestart (dumper : Dumper) : Dumper :=
  { dumper with fileDictionary := [], descriptors := [(0, none), (1, none), (2, none)] }

/-! ## Runs -/

/-- A call of `dumper_store`, with a value without terminators, or of
`dumper_remove_key_value`. -/
inductive DumperCall
  | store (key value : CString)
  | remove (key : CString)

/-- One call. -/
def dumperStep : PartialStep Dumper DumperCall := fun dumper call =>
  match call with
  | .store key value => some (dumperStore dumper key (bytesOf value))
  | .remove key => some (dumperRemoveKeyValue dumper key)

/-- A map from keys to values after a call. -/
def persistCall (persisted : CString → Option CString) : DumperCall → CString → Option CString
  | .store key value => Function.update persisted key (some value)
  | .remove key => Function.update persisted key none

/-- The values that are persisted after some calls, each the last one stored. -/
def persistedAfter (calls : List DumperCall) : CString → Option CString :=
  calls.foldl persistCall fun _ => none

/-- A store finds no descriptor of its key, or one that is open on the file of its key. -/
def storesInPlace (dumper : Dumper) : DumperCall → Prop
  | .store key _ =>
      ∀ fd, dictionaryGet dumper.fileDictionary key = some fd →
        ∃ file, dictionaryGet dumper.descriptors fd = some (some file) ∧
          dictionaryGet dumper.directory (getKeyValueFileName dumper key) = some file
  | .remove _ => True

/-! ## What is persisted -/

variable {dumper next : Dumper} {persisted : CString → Option CString}
  {files : CString → Option (List UInt8)} {key other : CString} {keys : List CString}

theorem getKeyValueFileName_injective
    (hname : getKeyValueFileName dumper key = getKeyValueFileName dumper other) : key = other :=
  List.append_cancel_left (List.append_cancel_right hname)

/-- The contents of the file of a key. -/
def fileOf (dumper : Dumper) (key : CString) : Option (List UInt8) :=
  (dictionaryGet dumper.directory (getKeyValueFileName dumper key)).bind
    (dictionaryGet dumper.contents)

/-- Every name in the directory denotes a file of its own, whose contents are known. -/
structure FilesApart (dumper : Dumper) : Prop where
  names : (dumper.directory.map Prod.fst).Nodup
  apart : ∀ {name otherName file}, dictionaryGet dumper.directory name = some file →
    dictionaryGet dumper.directory otherName = some file → name = otherName
  present : ∀ {name file}, dictionaryGet dumper.directory name = some file →
    ∃ bytes, dictionaryGet dumper.contents file = some bytes
  fresh : ∀ {file}, dumper.contents.length ≤ file → dictionaryGet dumper.contents file = none

/-- Every name in the directory is that of a key and denotes a file of its own. -/
structure Filed (dumper : Dumper) : Prop where
  names : (dumper.directory.map Prod.fst).Nodup
  named : ∀ node ∈ dumper.directory, ∃ key, node.1 = getKeyValueFileName dumper key
  apart : ∀ {name otherName file}, dictionaryGet dumper.directory name = some file →
    dictionaryGet dumper.directory otherName = some file → name = otherName
  present : ∀ {name file}, dictionaryGet dumper.directory name = some file →
    ∃ bytes, dictionaryGet dumper.contents file = some bytes
  fresh : ∀ {file}, dumper.contents.length ≤ file → dictionaryGet dumper.contents file = none

/-- The files have the contents of a map. -/
structure HoldsFiles (dumper : Dumper) (files : CString → Option (List UInt8)) : Prop where
  filed : Filed dumper
  value : ∀ key, fileOf dumper key = files key

/-- The contents of the files of some values. -/
def inBytes (persisted : CString → Option CString) : CString → Option (List UInt8) :=
  fun key => (persisted key).map bytesOf

/-- The files hold the values of a map. -/
abbrev Holds (dumper : Dumper) (persisted : CString → Option CString) : Prop :=
  HoldsFiles dumper (inBytes persisted)

theorem filed_dumperInit (mountPoint : CString) : Filed (dumperInit mountPoint) where
  names := List.nodup_nil
  named _ hmem := absurd hmem List.not_mem_nil
  apart hget := by cases hget
  present hget := by cases hget
  fresh _ := rfl

theorem holdsFiles_dumperInit (mountPoint : CString) :
    HoldsFiles (dumperInit mountPoint) fun _ => none :=
  ⟨filed_dumperInit mountPoint, fun _ => rfl⟩

theorem isSome_inBytes (persisted : CString → Option CString) (key : CString) :
    (inBytes persisted key).isSome = (persisted key).isSome := Option.isSome_map

theorem inBytes_update (persisted : CString → Option CString) (key : CString)
    (value : Option CString) :
    inBytes (Function.update persisted key value) =
      Function.update (inBytes persisted) key (value.map bytesOf) := by
  funext other
  by_cases hother : other = key
  · rw [inBytes, hother, Function.update_self, Function.update_self]
  · rw [inBytes, Function.update_of_ne hother, Function.update_of_ne hother]
    rfl

theorem Filed.filesApart (hfiled : Filed dumper) : FilesApart dumper :=
  ⟨hfiled.names, hfiled.apart, hfiled.present, hfiled.fresh⟩

/-- Nothing depends on the descriptors. -/
theorem FilesApart.of_descriptors (hfiles : FilesApart dumper)
    (fileDictionary : List (CString × ℕ)) (descriptors : List (ℕ × Option ℕ)) :
    FilesApart { dumper with fileDictionary := fileDictionary, descriptors := descriptors } :=
  ⟨hfiles.names, hfiles.apart, hfiles.present, hfiles.fresh⟩

theorem Filed.of_descriptors (hfiled : Filed dumper) (fileDictionary : List (CString × ℕ))
    (descriptors : List (ℕ × Option ℕ)) :
    Filed { dumper with fileDictionary := fileDictionary, descriptors := descriptors } :=
  ⟨hfiled.names, hfiled.named, hfiled.apart, hfiled.present, hfiled.fresh⟩

theorem HoldsFiles.of_descriptors (hholds : HoldsFiles dumper files)
    (fileDictionary : List (CString × ℕ)) (descriptors : List (ℕ × Option ℕ)) :
    HoldsFiles { dumper with fileDictionary := fileDictionary, descriptors := descriptors } files :=
  ⟨hholds.filed.of_descriptors _ _, hholds.value⟩

theorem HoldsFiles.get_eq_none_iff (hholds : HoldsFiles dumper files) :
    dictionaryGet dumper.directory (getKeyValueFileName dumper key) = none ↔
      files key = none := by
  have hvalue := hholds.value key
  constructor
  · intro hnone
    rw [fileOf, hnone] at hvalue
    exact hvalue.symm
  · intro hnone
    rw [hnone] at hvalue
    cases hget : dictionaryGet dumper.directory (getKeyValueFileName dumper key) with
    | none => rfl
    | some file =>
        obtain ⟨bytes, hbytes⟩ := hholds.filed.present hget
        rw [fileOf, hget, Option.bind_some, hbytes] at hvalue
        cases hvalue

/-! ## Opening the file of a key -/

/-- A file that exists is opened: nothing but the descriptors and their dictionary
changes. -/
theorem dumperCreateKeyValue_of_some {file : ℕ}
    (hget : dictionaryGet dumper.directory (getKeyValueFileName dumper key) = some file) :
    dumperCreateKeyValue dumper key =
      ({ dumper with
          descriptors := (lowestFree dumper.descriptors, some file) :: dumper.descriptors
          fileDictionary :=
            dictionaryPut dumper.fileDictionary key (lowestFree dumper.descriptors) },
        lowestFree dumper.descriptors) := by
  simp only [dumperCreateKeyValue, hget]

/-- A file that does not exist is created empty. -/
theorem dumperCreateKeyValue_of_none
    (hget : dictionaryGet dumper.directory (getKeyValueFileName dumper key) = none) :
    dumperCreateKeyValue dumper key =
      ({ dumper with
          directory :=
            (getKeyValueFileName dumper key, dumper.contents.length) :: dumper.directory
          contents := (dumper.contents.length, []) :: dumper.contents
          descriptors := (lowestFree dumper.descriptors, some dumper.contents.length) ::
            dumper.descriptors
          fileDictionary :=
            dictionaryPut dumper.fileDictionary key (lowestFree dumper.descriptors) },
        lowestFree dumper.descriptors) := by
  simp only [dumperCreateKeyValue, hget]

/-- The number of a new file is that of no file in the directory. -/
theorem FilesApart.ne_length {name : CString} {file : ℕ} (hfiles : FilesApart dumper)
    (hget : dictionaryGet dumper.directory name = some file) :
    file ≠ dumper.contents.length := by
  rintro rfl
  obtain ⟨bytes, hbytes⟩ := hfiles.present hget
  rw [hfiles.fresh (Nat.le_refl _)] at hbytes
  cases hbytes

/-- A new file. -/
theorem FilesApart.create (hfiles : FilesApart dumper)
    (hget : dictionaryGet dumper.directory (getKeyValueFileName dumper key) = none) :
    FilesApart { dumper with
      directory := (getKeyValueFileName dumper key, dumper.contents.length) :: dumper.directory
      contents := (dumper.contents.length, []) :: dumper.contents } := by
  constructor
  case names => exact List.nodup_cons.mpr ⟨dictionaryGet_eq_none_iff.mp hget, hfiles.names⟩
  case apart =>
    intro name otherName file hname hother
    by_cases hself : name = getKeyValueFileName dumper key <;>
      by_cases hotherSelf : otherName = getKeyValueFileName dumper key
    · rw [hself, hotherSelf]
    · rw [hself, dictionaryGet_cons_self] at hname
      rw [dictionaryGet_cons_of_ne hotherSelf] at hother
      exact absurd (Option.some.inj hname).symm (hfiles.ne_length hother)
    · rw [hotherSelf, dictionaryGet_cons_self] at hother
      rw [dictionaryGet_cons_of_ne hself] at hname
      exact absurd (Option.some.inj hother).symm (hfiles.ne_length hname)
    · rw [dictionaryGet_cons_of_ne hself] at hname
      rw [dictionaryGet_cons_of_ne hotherSelf] at hother
      exact hfiles.apart hname hother
  case present =>
    intro name file hfile
    by_cases hself : name = getKeyValueFileName dumper key
    · rw [hself, dictionaryGet_cons_self] at hfile
      rw [← Option.some.inj hfile]
      exact ⟨[], dictionaryGet_cons_self _ _ _⟩
    · rw [dictionaryGet_cons_of_ne hself] at hfile
      obtain ⟨bytes, hbytes⟩ := hfiles.present hfile
      exact ⟨bytes, (dictionaryGet_cons_of_ne (hfiles.ne_length hfile)).trans hbytes⟩
  case fresh =>
    intro file hfile
    have hlong : dumper.contents.length + 1 ≤ file := hfile
    rw [dictionaryGet_cons_of_ne (by omega)]
    exact hfiles.fresh (by omega)

/-- Writing over a file. -/
theorem FilesApart.write {name : CString} {file : ℕ} (hfiles : FilesApart dumper)
    (bytes : List UInt8) (hget : dictionaryGet dumper.directory name = some file) :
    FilesApart { dumper with contents := dictionaryPut dumper.contents file bytes } := by
  obtain ⟨written, hwritten⟩ := hfiles.present hget
  refine ⟨hfiles.names, hfiles.apart, ?_, ?_⟩
  · intro name otherFile hfile
    by_cases hsame : otherFile = file
    · exact ⟨bytes, hsame ▸ dictionaryGet_dictionaryPut_self _ _ _⟩
    · obtain ⟨others, hothers⟩ := hfiles.present hfile
      exact ⟨others, (dictionaryGet_dictionaryPut_of_ne hsame).trans hothers⟩
  · intro otherFile hlong
    rw [length_dictionaryPut hwritten] at hlong
    have hsame : otherFile ≠ file := by
      rintro rfl
      rw [hfiles.fresh hlong] at hwritten
      cases hwritten
    exact (dictionaryGet_dictionaryPut_of_ne hsame).trans (hfiles.fresh hlong)

/-- What is found after a removal was there before. -/
theorem FilesApart.get_of_remove {removed name : CString} {file : ℕ} (hfiles : FilesApart dumper)
    (hget : dictionaryGet (dictionaryRemove dumper.directory removed) name = some file) :
    dictionaryGet dumper.directory name = some file := by
  by_cases hname : name = removed
  · rw [hname, dictionaryGet_dictionaryRemove_self hfiles.names] at hget
    cases hget
  · rwa [dictionaryGet_dictionaryRemove_of_ne hname] at hget

/-- Removing a file. -/
theorem FilesApart.remove (hfiles : FilesApart dumper) (name : CString) :
    FilesApart { dumper with directory := dictionaryRemove dumper.directory name } :=
  ⟨nodup_dictionaryRemove hfiles.names _,
    fun hname hother => hfiles.apart (hfiles.get_of_remove hname) (hfiles.get_of_remove hother),
    fun hfile => hfiles.present (hfiles.get_of_remove hfile), hfiles.fresh⟩

/-- A new file is that of a key. -/
theorem Filed.create (hfiled : Filed dumper)
    (hget : dictionaryGet dumper.directory (getKeyValueFileName dumper key) = none) :
    Filed { dumper with
      directory := (getKeyValueFileName dumper key, dumper.contents.length) :: dumper.directory
      contents := (dumper.contents.length, []) :: dumper.contents } := by
  obtain ⟨hnames, hapart, hpresent, hfresh⟩ := hfiled.filesApart.create hget
  refine ⟨hnames, fun node hnode => ?_, hapart, hpresent, hfresh⟩
  rcases List.mem_cons.mp hnode with rfl | hnode
  · exact ⟨key, rfl⟩
  · exact hfiled.named node hnode

theorem Filed.write {file : ℕ} (hfiled : Filed dumper) (bytes : List UInt8)
    (hget : dictionaryGet dumper.directory (getKeyValueFileName dumper key) = some file) :
    Filed { dumper with contents := dictionaryPut dumper.contents file bytes } := by
  obtain ⟨hnames, hapart, hpresent, hfresh⟩ := hfiled.filesApart.write bytes hget
  exact ⟨hnames, hfiled.named, hapart, hpresent, hfresh⟩

theorem Filed.remove (hfiled : Filed dumper) (key : CString) :
    Filed { dumper with
      directory := dictionaryRemove dumper.directory (getKeyValueFileName dumper key) } := by
  obtain ⟨hnames, hapart, hpresent, hfresh⟩ :=
    hfiled.filesApart.remove (getKeyValueFileName dumper key)
  exact ⟨hnames, fun node hnode => hfiled.named node (List.mem_of_mem_eraseP hnode), hapart,
    hpresent, hfresh⟩

/-- A new file is empty. -/
theorem HoldsFiles.create (hholds : HoldsFiles dumper files) (hnone : files key = none) :
    HoldsFiles (dumperCreateKeyValue dumper key).1 (Function.update files key (some [])) := by
  have hget := hholds.get_eq_none_iff.mpr hnone
  rw [dumperCreateKeyValue_of_none hget]
  suffices hcreated : HoldsFiles
      { dumper with
        directory := (getKeyValueFileName dumper key, dumper.contents.length) :: dumper.directory
        contents := (dumper.contents.length, []) :: dumper.contents }
      (Function.update files key (some [])) from hcreated.of_descriptors _ _
  refine ⟨hholds.filed.create hget, fun other => ?_⟩
  by_cases hother : other = key
  · rw [hother, Function.update_self]
    show (dictionaryGet ((getKeyValueFileName dumper key, dumper.contents.length) ::
      dumper.directory) (getKeyValueFileName dumper key)).bind _ = _
    rw [dictionaryGet_cons_self, Option.bind_some, dictionaryGet_cons_self]
  · have hname : getKeyValueFileName dumper other ≠ getKeyValueFileName dumper key :=
      fun hsame => hother (getKeyValueFileName_injective hsame)
    rw [Function.update_of_ne hother, ← hholds.value other]
    show (dictionaryGet ((getKeyValueFileName dumper key, dumper.contents.length) ::
      dumper.directory) (getKeyValueFileName dumper other)).bind _ = _
    rw [dictionaryGet_cons_of_ne hname, fileOf]
    exact Option.bind_congr fun file hfile =>
      dictionaryGet_cons_of_ne (hholds.filed.filesApart.ne_length hfile)

/-- Writing over the file of a key. -/
theorem HoldsFiles.write {file : ℕ} (hholds : HoldsFiles dumper files) (bytes : List UInt8)
    (hget : dictionaryGet dumper.directory (getKeyValueFileName dumper key) = some file) :
    HoldsFiles { dumper with contents := dictionaryPut dumper.contents file bytes }
      (Function.update files key (some bytes)) := by
  refine ⟨hholds.filed.write _ hget, fun other => ?_⟩
  by_cases hother : other = key
  · rw [hother, Function.update_self]
    show (dictionaryGet dumper.directory (getKeyValueFileName dumper key)).bind _ = _
    rw [hget, Option.bind_some, dictionaryGet_dictionaryPut_self]
  · rw [Function.update_of_ne hother, ← hholds.value other]
    refine Option.bind_congr fun otherFile hfile => dictionaryGet_dictionaryPut_of_ne ?_
    rintro rfl
    exact hother (getKeyValueFileName_injective (hholds.filed.apart hfile hget))

/-- Removing the file of a key. -/
theorem HoldsFiles.remove (hholds : HoldsFiles dumper files) (key : CString) :
    HoldsFiles (dumperRemoveKeyValue dumper key) (Function.update files key none) := by
  suffices hremoved : HoldsFiles
      { dumper with
        directory := dictionaryRemove dumper.directory (getKeyValueFileName dumper key) }
      (Function.update files key none) from hremoved.of_descriptors _ _
  refine ⟨hholds.filed.remove key, fun other => ?_⟩
  show (dictionaryGet (dictionaryRemove dumper.directory (getKeyValueFileName dumper key))
    (getKeyValueFileName dumper other)).bind _ = _
  by_cases hother : other = key
  · rw [hother, Function.update_self, dictionaryGet_dictionaryRemove_self hholds.filed.names]
    rfl
  · have hname : getKeyValueFileName dumper other ≠ getKeyValueFileName dumper key :=
      fun hsame => hother (getKeyValueFileName_injective hsame)
    rw [Function.update_of_ne hother, dictionaryGet_dictionaryRemove_of_ne hname]
    exact hholds.value other

/-- What `dumper_create_key_value` leaves: the descriptor is open on the file of the
key. -/
theorem exists_dumperCreateKeyValue (hholds : HoldsFiles dumper files) (key : CString) :
    ∃ opened fd file, dumperCreateKeyValue dumper key = (opened, fd) ∧
      dictionaryGet opened.descriptors fd = some (some file) ∧
      dictionaryGet opened.directory (getKeyValueFileName opened key) = some file ∧
      HoldsFiles opened (Function.update files key (some ((files key).getD []))) := by
  cases hpersisted : files key with
  | none =>
      have hget := hholds.get_eq_none_iff.mpr hpersisted
      have hcreated := hholds.create hpersisted
      rw [dumperCreateKeyValue_of_none hget] at hcreated ⊢
      exact ⟨_, _, _, rfl, dictionaryGet_cons_self _ _ _, dictionaryGet_cons_self _ _ _, hcreated⟩
  | some bytes =>
      cases hget : dictionaryGet dumper.directory (getKeyValueFileName dumper key) with
      | none =>
          rw [hholds.get_eq_none_iff.mp hget] at hpersisted
          cases hpersisted
      | some file =>
          rw [dumperCreateKeyValue_of_some hget]
          have hsame : Function.update files key (some bytes) = files := by
            rw [← hpersisted, Function.update_eq_self]
          exact ⟨_, _, file, rfl, dictionaryGet_cons_self _ _ _, hget,
            hsame.symm ▸ hholds.of_descriptors _ _⟩

/-- **A store in place** writes its bytes. -/
theorem HoldsFiles.store (hholds : HoldsFiles dumper files) (bytes : List UInt8)
    (hplace : ∀ fd, dictionaryGet dumper.fileDictionary key = some fd →
      ∃ file, dictionaryGet dumper.descriptors fd = some (some file) ∧
        dictionaryGet dumper.directory (getKeyValueFileName dumper key) = some file) :
    HoldsFiles (dumperStore dumper key bytes) (Function.update files key (some bytes)) := by
  cases hentry : dictionaryGet dumper.fileDictionary key with
  | some fd =>
      obtain ⟨file, hopen, hfile⟩ := hplace fd hentry
      have hstored : dumperStore dumper key bytes =
          { dumper with contents := dictionaryPut dumper.contents file bytes } := by
        simp only [dumperStore, hentry, hopen]
      exact hstored ▸ hholds.write bytes hfile
  | none =>
      obtain ⟨opened, fd, file, hcreate, hopen, hfile, hopened⟩ :=
        exists_dumperCreateKeyValue hholds key
      have hstored : dumperStore dumper key bytes =
          { opened with contents := dictionaryPut opened.contents file bytes } := by
        simp only [dumperStore, hentry, hcreate, hopen]
      rw [hstored]
      have hwritten := hopened.write bytes hfile
      rwa [Function.update_idem] at hwritten

theorem holds_dumperStep {call : DumperCall} (hholds : Holds dumper persisted)
    (hplace : storesInPlace dumper call) (hstep : dumperStep dumper call = some next) :
    Holds next (persistCall persisted call) := by
  cases call with
  | store key value =>
      obtain rfl := Option.some.inj hstep
      rw [persistCall, Holds, inBytes_update]
      exact hholds.store (bytesOf value) hplace
  | remove key =>
      obtain rfl := Option.some.inj hstep
      rw [persistCall, Holds, inBytes_update]
      exact hholds.remove key

/-- **The files hold what the calls persisted.** -/
theorem holds_of_runs {start finish : Dumper} {calls : List DumperCall}
    (hrun : dumperStep.Runs storesInPlace start calls finish) (hholds : Holds start persisted) :
    Holds finish (calls.foldl persistCall persisted) := by
  induction hrun generalizing persisted with
  | refl => exact hholds
  | head hplace hstep _ ih => exact ih (holds_dumperStep hholds hplace hstep)

/-! ## The keys that are stored -/

@[simp]
theorem messengerBytesToString_bytesOf (string : CString) :
    messengerBytesToString (bytesOf string) = string :=
  stringOf_bytesOf_append_zero string []

theorem getFileNameKeyValue_append (key : CString) :
    getFileNameKeyValue (key ++ txtSuffix) = key := by
  have hlength : (key ++ txtSuffix).length - 4 = key.length := by
    rw [List.length_append]
    rfl
  rw [getFileNameKeyValue, if_pos (List.suffix_append key txtSuffix).isInfix, hlength,
    List.take_left]

theorem drop_getKeyValueFileName (dumper : Dumper) (key : CString) :
    (getKeyValueFileName dumper key).drop dumper.mountPoint.length = key ++ txtSuffix := by
  rw [getKeyValueFileName, List.append_assoc, List.drop_left]
  rfl

/-- Every key that has a file is listed, the empty one apart. -/
theorem HoldsFiles.mem_dumperGetStoredKeys (hholds : HoldsFiles dumper files) :
    key ∈ dumperGetStoredKeys dumper ↔ key ≠ [] ∧ (files key).isSome = true := by
  simp only [dumperGetStoredKeys, List.mem_filter, List.mem_map, Bool.not_eq_true',
    List.isEmpty_eq_false_iff]
  constructor
  · rintro ⟨⟨node, hnode, rfl⟩, hsome⟩
    refine ⟨hsome, ?_⟩
    obtain ⟨stored, hname⟩ := hholds.filed.named node hnode
    obtain ⟨file, hfile⟩ := exists_dictionaryGet_of_mem (show (node.1, node.2) ∈ _ from hnode)
    rw [hname] at hfile
    rw [hname, drop_getKeyValueFileName, getFileNameKeyValue_append, Option.isSome_iff_ne_none]
    intro hnone
    rw [hholds.get_eq_none_iff.mpr hnone] at hfile
    cases hfile
  · rintro ⟨hsome, hpersisted⟩
    refine ⟨?_, hsome⟩
    cases hget : dictionaryGet dumper.directory (getKeyValueFileName dumper key) with
    | none =>
        rw [hholds.get_eq_none_iff.mp hget] at hpersisted
        cases hpersisted
    | some file =>
        refine ⟨_, mem_of_dictionaryGet hget, ?_⟩
        rw [drop_getKeyValueFileName, getFileNameKeyValue_append]

/-- The test of `dumper_recover` for the existence of a key. -/
def isListed (dumper : Dumper) (key : CString) : Bool :=
  (dumperGetStoredKeys dumper).any (stringEqualsIgnoreCase key)

theorem HoldsFiles.isListed_iff (hholds : HoldsFiles dumper files) :
    isListed dumper key = true ↔ ∃ other, other ≠ [] ∧ (files other).isSome = true ∧
      stringEqualsIgnoreCase key other = true := by
  simp only [isListed, List.any_eq_true, hholds.mem_dumperGetStoredKeys, and_assoc]

/-- A key that has a file is found, the empty one apart. -/
theorem HoldsFiles.isListed_of_isSome (hholds : HoldsFiles dumper files)
    (hsome : (files key).isSome = true) : isListed dumper key = true ↔ key ≠ [] := by
  rw [hholds.isListed_iff]
  constructor
  · rintro ⟨other, hother, -, hequal⟩ rfl
    have hbytes : (bytesOf []).map tolower = (bytesOf other).map tolower := by
      simpa [stringEqualsIgnoreCase] using hequal
    have hlength := congrArg List.length hbytes
    rw [List.length_map, List.length_map, length_bytesOf, length_bytesOf] at hlength
    exact hother (List.length_eq_zero_iff.mp hlength.symm)
  · exact fun hkey => ⟨key, hkey, hsome, stringEqualsIgnoreCase_self key⟩

/-! ## The loop of the recovery -/

/-- The value that a recovery reads for a key. -/
def readFile (files : CString → Option (List UInt8)) (key : CString) : CString :=
  messengerBytesToString ((files key).getD [])

/-- A key is recovered with what its file holds, or created with the empty value. -/
theorem exists_recoverKeyValue (hholds : HoldsFiles dumper files) (key : CString) :
    ∃ opened, recoverKeyValue dumper key = (opened, keyValueCreate key (readFile files key)) ∧
      opened.mountPoint = dumper.mountPoint ∧
      HoldsFiles opened (Function.update files key (some ((files key).getD []))) := by
  obtain ⟨opened, fd, file, hcreate, hopen, hfile, hopened⟩ :=
    exists_dumperCreateKeyValue hholds key
  have hmount : (dumperCreateKeyValue dumper key).1.mountPoint = dumper.mountPoint := by
    simp only [dumperCreateKeyValue]
    split <;> rfl
  have hvalue := hopened.value key
  rw [fileOf, hfile, Option.bind_some, Function.update_self] at hvalue
  have hread : getStoredValue opened fd = (files key).getD [] := by
    simp only [getStoredValue, hopen, hvalue, Option.getD_some]
  refine ⟨opened, ?_, ?_, hopened⟩
  · simp only [recoverKeyValue, hcreate, hread, readFile]
  · rwa [hcreate] at hmount

/-- **The loop**: every key that is listed is recovered, in order, and has a file from
then on. -/
theorem exists_foldl_recoverStep {storedKeys : List CString} (recovered : List KeyValue)
    (keys : List CString) (hholds : HoldsFiles dumper files) :
    ∃ final current, keys.foldl (recoverStep storedKeys) (dumper, recovered) =
        (final, recovered ++ (keys.filter fun key =>
          storedKeys.any (stringEqualsIgnoreCase key)).map fun key =>
            keyValueCreate key (readFile files key)) ∧
      final.mountPoint = dumper.mountPoint ∧ HoldsFiles final current ∧
      ∀ key, (current key).isSome = true ↔ (files key).isSome = true ∨
        key ∈ keys ∧ storedKeys.any (stringEqualsIgnoreCase key) = true := by
  induction keys generalizing dumper files recovered with
  | nil =>
      exact ⟨dumper, files, by rw [List.filter_nil, List.map_nil, List.append_nil]; rfl, rfl,
        hholds, fun key => by simp⟩
  | cons key keys ih =>
      by_cases hlisted : storedKeys.any (stringEqualsIgnoreCase key) = true
      · obtain ⟨opened, hrecover, hmount, hopened⟩ := exists_recoverKeyValue hholds key
        have hsame : readFile (Function.update files key (some ((files key).getD []))) =
            readFile files := by
          funext other
          by_cases hother : other = key
          · rw [hother, readFile, Function.update_self]
            rfl
          · rw [readFile, Function.update_of_ne hother]
            rfl
        obtain ⟨final, current, hfold, hfinal, hcurrent, hsome⟩ :=
          ih (recovered ++ [keyValueCreate key (readFile files key)]) hopened
        refine ⟨final, current, ?_, hfinal.trans hmount, hcurrent, fun other => ?_⟩
        · have hstep : recoverStep storedKeys (dumper, recovered) key =
              (opened, recovered ++ [keyValueCreate key (readFile files key)]) := by
            simp only [recoverStep, if_pos hlisted, hrecover]
          rw [List.foldl_cons, hstep, hfold, hsame, List.filter_cons_of_pos (by exact hlisted),
            List.map_cons, List.append_assoc]
          rfl
        · rw [hsome]
          by_cases hother : other = key
          · simp [hother, hlisted]
          · simp [hother]
      · obtain ⟨final, current, hfold, hfinal, hcurrent, hsome⟩ := ih recovered hholds
        refine ⟨final, current, ?_, hfinal, hcurrent, fun other => ?_⟩
        · have hstep : recoverStep storedKeys (dumper, recovered) key = (dumper, recovered) :=
            if_neg hlisted
          rw [List.foldl_cons, hstep, hfold, List.filter_cons_of_neg (by exact hlisted)]
        · rw [hsome]
          by_cases hother : other = key
          · simp [hother, hlisted]
          · simp [hother]

/-- The values that a recovery gives. -/
theorem dumperRecover_eq (hholds : HoldsFiles dumper files) (keys : List CString) :
    (dumperRecover dumper keys).2 = (keys.filter (isListed dumper)).map fun key =>
      keyValueCreate key (readFile files key) := by
  obtain ⟨final, current, hfold, -, -, -⟩ := exists_foldl_recoverStep [] keys hholds
  have hrecover : dumperRecover dumper keys = (final, [] ++ (keys.filter (isListed dumper)).map
      fun key => keyValueCreate key (readFile files key)) := hfold
  rw [hrecover, List.nil_append]

/-- The value of a key that is persisted, or the empty one. -/
def readValue (persisted : CString → Option CString) (key : CString) : CString :=
  (persisted key).getD []

theorem readFile_inBytes (persisted : CString → Option CString) (key : CString) :
    readFile (inBytes persisted) key = readValue persisted key := by
  rw [readFile, inBytes, readValue]
  cases persisted key with
  | none => rfl
  | some value => exact messengerBytesToString_bytesOf value

/-! ## The result -/

/-- What a recovery is meant to do: the requested keys that are persisted are recovered
in order, each with its value, and the directory names the same files. -/
structure RoundTrip (dumper : Dumper) (persisted : CString → Option CString)
    (keys : List CString) : Prop where
  result : (dumperRecover dumper keys).2.map (fun keyValue => (keyValue.key, keyValue.value)) =
    keys.filterMap fun key => (persisted key).map fun value => (key, value)
  files : ∀ name, name ∈ (dumperRecover dumper keys).1.directory.map Prod.fst ↔
    name ∈ dumper.directory.map Prod.fst

/-- The requested keys that are persisted are neither empty nor too long, and those that
are not do not resemble one that is. -/
structure Recoverable (persisted : CString → Option CString) (keys : List CString) : Prop where
  stored : ∀ key ∈ keys, (persisted key).isSome = true → key ≠ [] ∧ key.length ≤ 40
  missing : ∀ key ∈ keys, persisted key = none → ∀ other, other ≠ [] →
    (persisted other).isSome = true → stringEqualsIgnoreCase key other = false

/-- Two selections from a list of which the first one selects less agree only where both
do. -/
theorem filterMap_eq_iff {α β : Type} {first second : α → Option β} {list : List α}
    (hless : ∀ a ∈ list, (first a).isSome = true → (second a).isSome = true) :
    list.filterMap first = list.filterMap second ↔ ∀ a ∈ list, first a = second a := by
  refine ⟨fun hequal => ?_, fun hequal => List.filterMap_congr hequal⟩
  induction list with
  | nil => exact fun a hmem => absurd hmem List.not_mem_nil
  | cons head list ih =>
      have hrest : ∀ a ∈ list, (first a).isSome = true → (second a).isSome = true :=
        fun a hmem => hless a (List.mem_cons_of_mem _ hmem)
      have hlength : (list.filterMap first).length ≤ (list.filterMap second).length := by
        rw [List.length_filterMap_eq_countP, List.length_filterMap_eq_countP]
        exact List.countP_mono_left hrest
      cases hfirst : first head with
      | none =>
          cases hsecond : second head with
          | none =>
              rw [List.filterMap_cons_none hfirst, List.filterMap_cons_none hsecond] at hequal
              exact List.forall_mem_cons.mpr ⟨hfirst.trans hsecond.symm, ih hrest hequal⟩
          | some value =>
              rw [List.filterMap_cons_none hfirst, List.filterMap_cons_some hsecond] at hequal
              rw [hequal, List.length_cons] at hlength
              exact absurd hlength (Nat.not_succ_le_self _)
      | some value =>
          have hsome := hless head List.mem_cons_self (by rw [hfirst]; rfl)
          obtain ⟨other, hsecond⟩ := Option.isSome_iff_exists.mp hsome
          rw [List.filterMap_cons_some hfirst, List.filterMap_cons_some hsecond] at hequal
          obtain ⟨hhead, htail⟩ := List.cons.inj hequal
          exact List.forall_mem_cons.mpr ⟨by rw [hfirst, hsecond, hhead], ih hrest htail⟩

/-- The names in the directory are those of the keys that have a file. -/
theorem HoldsFiles.mem_directory_iff (hholds : HoldsFiles dumper files) {name : CString} :
    name ∈ dumper.directory.map Prod.fst ↔
      ∃ key, name = getKeyValueFileName dumper key ∧ (files key).isSome = true := by
  constructor
  · intro hmem
    obtain ⟨node, hnode, rfl⟩ := List.mem_map.mp hmem
    obtain ⟨key, hname⟩ := hholds.filed.named node hnode
    refine ⟨key, hname, ?_⟩
    rw [Option.isSome_iff_ne_none]
    intro hnone
    have hget := hholds.get_eq_none_iff.mpr hnone
    rw [← hname] at hget
    exact dictionaryGet_eq_none_iff.mp hget hmem
  · rintro ⟨key, rfl, hsome⟩
    by_contra hmissing
    rw [hholds.get_eq_none_iff.mp (dictionaryGet_eq_none_iff.mpr hmissing)] at hsome
    cases hsome

/-- What a recovery makes of a request. -/
def recoveredPair (dumper : Dumper) (persisted : CString → Option CString) (key : CString) :
    Option (CString × CString) :=
  if isListed dumper key then some (key.take 40, readValue persisted key) else none

/-- The outcome of a recovery. -/
theorem dumperRecover_spec (hholds : Holds dumper persisted) (keys : List CString) :
    (dumperRecover dumper keys).2.map (fun keyValue => (keyValue.key, keyValue.value)) =
        keys.filterMap (recoveredPair dumper persisted) ∧
      ∀ name, name ∈ (dumperRecover dumper keys).1.directory.map Prod.fst ↔
        ∃ key, name = getKeyValueFileName dumper key ∧
          ((persisted key).isSome = true ∨ key ∈ keys ∧ isListed dumper key = true) := by
  obtain ⟨final, current, hfold, hmount, hcurrent, hsome⟩ :=
    exists_foldl_recoverStep [] keys hholds
  have hrecover : dumperRecover dumper keys = (final, [] ++ (keys.filter (isListed dumper)).map
      fun key => keyValueCreate key (readFile (inBytes persisted) key)) := hfold
  simp only [isSome_inBytes, readFile_inBytes] at hrecover hsome
  rw [hrecover]
  constructor
  · rw [List.nil_append, List.map_map, ← List.filterMap_eq_map, List.filterMap_filter]
    rfl
  · intro name
    rw [hcurrent.mem_directory_iff]
    refine exists_congr fun key => and_congr ?_ (hsome key)
    rw [getKeyValueFileName, getKeyValueFileName, hmount]

/-- The recovery creates no file when it finds no other keys than those that are
persisted. -/
theorem recoveredPair_isSome (hexist : isListed dumper key = true →
    (persisted key).isSome = true) (hsome : (recoveredPair dumper persisted key).isSome = true) :
    ((persisted key).map fun value => (key, value)).isSome = true := by
  rw [Option.isSome_map]
  apply hexist
  by_contra hlisted
  rw [recoveredPair, if_neg hlisted] at hsome
  cases hsome

/-- A key that is persisted is recovered as itself when it is neither empty nor too
long. -/
theorem Holds.recoveredPair_eq_iff (hholds : Holds dumper persisted) {value : CString}
    (hvalue : persisted key = some value) :
    recoveredPair dumper persisted key = some (key, value) ↔ key ≠ [] ∧ key.length ≤ 40 := by
  have hread : readValue persisted key = value := by rw [readValue, hvalue]; rfl
  have hsome : (persisted key).isSome = true := by rw [hvalue]; rfl
  have hlisted := hholds.isListed_of_isSome ((isSome_inBytes persisted key).trans hsome)
  rw [recoveredPair, hread, ← hlisted]
  constructor
  · intro hpair
    by_cases hfound : isListed dumper key = true
    · rw [if_pos hfound] at hpair
      exact ⟨hfound, (List.take_eq_self_iff _).mp (Prod.mk.inj (Option.some.inj hpair)).1⟩
    · rw [if_neg hfound] at hpair
      cases hpair
  · rintro ⟨hfound, hshort⟩
    rw [if_pos hfound, List.take_of_length_le hshort]

/-- **A recovery is exact exactly when the requests are recoverable.** -/
theorem Holds.roundTrip_iff (hholds : Holds dumper persisted) (keys : List CString) :
    RoundTrip dumper persisted keys ↔ Recoverable persisted keys := by
  obtain ⟨hresult, hfiles⟩ := dumperRecover_spec hholds keys
  have hdirectory : ∀ name, name ∈ dumper.directory.map Prod.fst ↔
      ∃ key, name = getKeyValueFileName dumper key ∧ (persisted key).isSome = true := by
    intro name
    rw [hholds.mem_directory_iff]
    exact exists_congr fun key => by rw [isSome_inBytes]
  constructor
  · rintro ⟨hexact, hsame⟩
    have hexist : ∀ key ∈ keys, isListed dumper key = true → (persisted key).isSome = true := by
      intro key hmem hlisted
      have hfile := (hsame _).mp ((hfiles _).mpr ⟨key, rfl, .inr ⟨hmem, hlisted⟩⟩)
      obtain ⟨other, hname, hsome⟩ := (hdirectory _).mp hfile
      rwa [getKeyValueFileName_injective hname]
    have hequal := (filterMap_eq_iff fun key hmem =>
      recoveredPair_isSome (hexist key hmem)).mp (hresult.symm.trans hexact)
    refine ⟨fun key hmem hsome => ?_, fun key hmem hnone other hother hsome => ?_⟩
    · obtain ⟨value, hvalue⟩ := Option.isSome_iff_exists.mp hsome
      have hpair := hequal key hmem
      rw [hvalue, Option.map_some] at hpair
      exact (hholds.recoveredPair_eq_iff hvalue).mp hpair
    · by_contra hresembles
      have hlisted : isListed dumper key = true :=
        hholds.isListed_iff.mpr ⟨other, hother, (isSome_inBytes persisted other).trans hsome,
          by simpa using hresembles⟩
      have hpersisted := hexist key hmem hlisted
      rw [hnone] at hpersisted
      cases hpersisted
  · rintro ⟨hstored, hmissing⟩
    have hexist : ∀ key ∈ keys, isListed dumper key = true → (persisted key).isSome = true := by
      intro key hmem hlisted
      obtain ⟨other, hother, hsome, hequal⟩ := hholds.isListed_iff.mp hlisted
      rw [isSome_inBytes] at hsome
      rw [Option.isSome_iff_ne_none]
      intro hnone
      rw [hmissing key hmem hnone other hother hsome] at hequal
      cases hequal
    refine ⟨hresult.trans ((filterMap_eq_iff fun key hmem =>
      recoveredPair_isSome (hexist key hmem)).mpr fun key hmem => ?_), fun name => ?_⟩
    · cases hvalue : persisted key with
      | some value =>
          exact (hholds.recoveredPair_eq_iff hvalue).mpr (hstored key hmem (by rw [hvalue]; rfl))
      | none =>
          refine if_neg fun hlisted => ?_
          have hpersisted := hexist key hmem hlisted
          rw [hvalue] at hpersisted
          cases hpersisted
    · rw [hfiles, hdirectory]
      exact exists_congr fun key => and_congr_right fun _ =>
        ⟨fun hsome => hsome.elim id fun ⟨hmem, hlisted⟩ => hexist key hmem hlisted, .inl⟩

/-- **Dump and recover round trip.** After any calls whose stores are made in place, and
a restart, a recovery is exact exactly when the requests are recoverable. -/
theorem roundTrip_of_runs {mountPoint : CString} {calls : List DumperCall} {finish : Dumper}
    (hrun : dumperStep.Runs storesInPlace (dumperInit mountPoint) calls finish)
    (keys : List CString) :
    RoundTrip (dumperRestart finish) (persistedAfter calls) keys ↔
      Recoverable (persistedAfter calls) keys := by
  have hinit : Holds (dumperInit mountPoint) fun _ => none := holdsFiles_dumperInit mountPoint
  have hrestart : Holds (dumperRestart finish) (persistedAfter calls) :=
    (holds_of_runs hrun hinit).of_descriptors _ _
  exact hrestart.roundTrip_iff keys

/-- Calls under `/d/`: `a` is stored, stored again with a shorter value, and `b` is stored
and removed. -/
def rewriteCalls : List DumperCall :=
  [.store (literal [97]) (literal [120, 121]), .store (literal [98]) (literal [122]),
    .store (literal [97]) (literal [119]), .remove (literal [98])]

/-- Both stores of `a` go to its own file, and `a` is recovered while `b` is not. -/
theorem roundTrip_rewriteCalls : ∃ finish,
    dumperStep.Runs storesInPlace (dumperInit (literal [47, 100, 47])) rewriteCalls finish ∧
    RoundTrip (dumperRestart finish) (persistedAfter rewriteCalls)
      [literal [98], literal [97]] := by
  have hrun : ∃ finish,
      dumperStep.Runs storesInPlace (dumperInit (literal [47, 100, 47])) rewriteCalls finish := by
    refine ⟨_, .head ?_ rfl (.head ?_ rfl (.head ?_ rfl (.head trivial rfl (.refl _))))⟩
    · intro fd hentry
      cases hentry
    · intro fd hentry
      cases hentry
    · intro fd hentry
      obtain rfl : 3 = fd := Option.some.inj hentry
      exact ⟨0, rfl, rfl⟩
  obtain ⟨finish, hrun⟩ := hrun
  refine ⟨finish, hrun, (roundTrip_of_runs hrun _).mpr ⟨?_, ?_⟩⟩
  · intro key hmem hsome
    rcases List.mem_cons.mp hmem with rfl | hmem
    · exact ⟨by decide, by decide⟩
    · rw [List.mem_singleton.mp hmem]
      exact ⟨by decide, by decide⟩
  · intro key hmem hnone other hother hsome
    have honly : other = literal [97] := by
      by_contra hne
      have hnone : persistedAfter rewriteCalls other = none := by
        by_cases hb : other = literal [98]
        · rw [hb]
          rfl
        · simp [persistedAfter, rewriteCalls, persistCall, hne, hb]
      rw [hnone] at hsome
      cases hsome
    subst honly
    rcases List.mem_cons.mp hmem with rfl | hmem
    · decide
    · rw [List.mem_singleton.mp hmem] at hnone
      cases hnone

/-- `a` is stored and `A` is requested: the file of `A` is created, and `A` is recovered. -/
theorem not_roundTrip_otherCase : ¬ ∀ (mountPoint : CString) (calls : List DumperCall)
    (finish : Dumper) (keys : List CString),
      dumperStep.FreeRuns (dumperInit mountPoint) calls finish →
        RoundTrip (dumperRestart finish) (persistedAfter calls) keys := by
  intro hall
  have hround := hall (literal [47, 100, 47]) [.store (literal [97]) (literal [120])] _
    [literal [65]] (.single trivial rfl)
  have hresult := hround.result
  revert hresult
  decide

end SockMyPort.Instancia
