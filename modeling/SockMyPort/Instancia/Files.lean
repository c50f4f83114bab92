/-
# The files under the calls of the dumper

What the calls of the dumper leave in the files, also when the process is killed between
two calls or in the middle of one. `dumper_store` opens the file of a key, gives it its
new size and copies the data over a mapping of it: a kill leaves the file as it was opened,
or with some of the bytes copied. The bytes that are not copied are those that the file
had in their place, or zeros behind its old end.
-/

import SockMyPort.Instancia.Descriptors
import SockMyPort.Library.WriteBack

namespace SockMyPort.Instancia

open SockMyPort.Commons Library

/-! ## Writes that are cut off -/

/-- How far a write has come: the file has been opened, or it has its new size and some
positions have been copied. -/
inductive Cut
  | opened
  | resized (copied : List ℕ)
  deriving DecidableEq

/-- What a write that is cut off leaves of what was there and of its data. -/
def torn (old : Option (List UInt8)) (data : List UInt8) : Cut → List UInt8
  | .opened => old.getD []
  | .resized copied => (List.range data.length).map fun i =>
      if i ∈ copied then data.getD i 0 else (old.getD []).getD i 0

/-- Writing the same data again changes nothing, wherever it is cut off. -/
theorem torn_self (data : List UInt8) (cut : Cut) : torn (some data) data cut = data := by
  cases cut with
  | opened => rfl
  | resized copied =>
      refine List.ext_getElem (by simp [torn]) fun i _ hlt => ?_
      simp [torn, List.getElem?_eq_getElem hlt]

/-- A new file is as good as none. -/
theorem torn_some_getD (old : Option (List UInt8)) (data : List UInt8) (cut : Cut) :
    torn (some (old.getD [])) data cut = torn old data cut := by
  cases cut <;> rfl

instance : DiskFormat CString (List UInt8) Cut where
  encode := bytesOf
  decode := messengerBytesToString
  torn := torn
  decode_encode := messengerBytesToString_bytesOf
  torn_self := torn_self

/-- `dumper_store` of a process that is killed before it returns, but not before it has
opened the file. -/
def dumperStoreCut (dumper : Dumper) (key : CString) (data : List UInt8) (cut : Cut) : Dumper :=
  let (opened, fdKey) :=
    match dictionaryGet dumper.fileDictionary key with
    | some fd => (dumper, fd)
    | none => dumperCreateKeyValue dumper key
  match dictionaryGet opened.descriptors fdKey with
  | some (some file) =>
      { opened with
        contents := dictionaryPut opened.contents file
          (torn (dictionaryGet opened.contents file) data cut) }
  | _ => opened

/-- A call that a kill cuts off, if it has begun. The other calls change the files at one
moment or not at all. -/
def cutUse (dumper : Dumper) : DumperUse → Option Cut → Dumper
  | .store key data, some cut => dumperStoreCut dumper key data cut
  | _, _ => dumper

/-- Some calls of which the first ones are made and the next one is cut off. -/
def cutUses (cut : Option Cut) (dumper : Dumper) : List DumperUse → ℕ → Dumper
  | [], _ => dumper
  | use :: _, 0 => cutUse dumper use cut
  | use :: uses, calls + 1 => cutUses cut (useDumper dumper use) uses calls

/-! ## What is in the files -/

/-- The files after a call of the dumper. -/
def persistUse (files : CString → Option (List UInt8)) :
    DumperUse → CString → Option (List UInt8)
  | .create key => Function.update files key (some ((files key).getD []))
  | .store key data => Function.update files key (some data)
  | .remove key => Function.update files key none

/-- The files after a call that is cut off. -/
def persistCut (files : CString → Option (List UInt8)) :
    DumperUse → Option Cut → CString → Option (List UInt8)
  | .store key data, some cut => Function.update files key (some (torn (files key) data cut))
  | _, _ => files

/-- The files after some calls of which the last one is cut off. -/
def persistUses (cut : Option Cut) (files : CString → Option (List UInt8)) :
    List DumperUse → ℕ → CString → Option (List UInt8)
  | [], _ => files
  | use :: _, 0 => persistCut files use cut
  | use :: uses, calls + 1 => persistUses cut (persistUse files use) uses calls

variable {dumper : Dumper} {files : CString → Option (List UInt8)} {key : CString}
  {uses later : List DumperUse} {traced : TracedDumper}

/-- **A write in place** that is cut off leaves what it says. -/
theorem HoldsFiles.storeCut (hholds : HoldsFiles dumper files) (data : List UInt8) (cut : Cut)
    (hplace : ∀ fd, dictionaryGet dumper.fileDictionary key = some fd →
      ∃ file, dictionaryGet dumper.descriptors fd = some (some file) ∧
        dictionaryGet dumper.directory (getKeyValueFileName dumper key) = some file) :
    HoldsFiles (dumperStoreCut dumper key data cut)
      (Function.update files key (some (torn (files key) data cut))) := by
  cases hentry : dictionaryGet dumper.fileDictionary key with
  | some fd =>
      obtain ⟨file, hopen, hfile⟩ := hplace fd hentry
      have hcontents : dictionaryGet dumper.contents file = files key := by
        rw [← hholds.value key, fileOf, hfile, Option.bind_some]
      have hstored : dumperStoreCut dumper key data cut =
          { dumper with
            contents := dictionaryPut dumper.contents file (torn (files key) data cut) } := by
        simp only [dumperStoreCut, hentry, hopen, hcontents]
      exact hstored ▸ hholds.write _ hfile
  | none =>
      obtain ⟨opened, fd, file, hcreate, hopen, hfile, hopened⟩ :=
        exists_dumperCreateKeyValue hholds key
      have hcontents : dictionaryGet opened.contents file = some ((files key).getD []) := by
        have hvalue := hopened.value key
        rwa [fileOf, hfile, Option.bind_some, Function.update_self] at hvalue
      have hstored : dumperStoreCut dumper key data cut =
          { opened with
            contents := dictionaryPut opened.contents file (torn (files key) data cut) } := by
        simp only [dumperStoreCut, hentry, hcreate, hopen, hcontents, torn_some_getD]
      rw [hstored]
      have hwritten := hopened.write (torn (files key) data cut) hfile
      rwa [Function.update_idem] at hwritten

namespace Tidy

/-- A call of a tidy dumper. -/
theorem holds_use {use : DumperUse} (htidy : Tidy uses traced)
    (hholds : HoldsFiles traced.dumper files) :
    HoldsFiles (useDumper traced.dumper use) (persistUse files use) := by
  cases use with
  | create key =>
      obtain ⟨opened, fd, file, hcreate, -, -, hopened⟩ := exists_dumperCreateKeyValue hholds key
      rw [useDumper, hcreate]
      exact hopened
  | store key data => exact hholds.store data fun fd hfd => htidy.own hfd
  | remove key => exact hholds.remove key

theorem holds_cutUse {use : DumperUse} (htidy : Tidy uses traced)
    (hholds : HoldsFiles traced.dumper files) (cut : Option Cut) :
    HoldsFiles (cutUse traced.dumper use cut) (persistCut files use cut) := by
  cases use with
  | create key | remove key => exact hholds
  | store key data =>
      cases cut with
      | none => exact hholds
      | some cut => exact hholds.storeCut data cut fun fd hfd => htidy.own hfd

end Tidy

/-- **Some calls** of which every removal is of a stored key. -/
theorem holds_foldl_persistUse (started : StartedDumper)
    (hstored : removesStored [] (uses ++ later) = true)
    (hholds : HoldsFiles (tracedDumper started.dumper uses).dumper files) :
    HoldsFiles (tracedDumper started.dumper (uses ++ later)).dumper
      (later.foldl persistUse files) := by
  induction later using List.reverseRecOn with
  | nil => rwa [List.append_nil]
  | append_singleton later use ih =>
      rw [← List.append_assoc, removesStored_concat, Bool.and_eq_true] at hstored
      rw [← List.append_assoc, tracedDumper_concat, List.foldl_concat]
      exact (tidy_of_removesStored started hstored.1).holds_use (ih hstored.1)

/-- **A kill** among them. -/
theorem holds_cutUses (started : StartedDumper)
    (hstored : removesStored [] (uses ++ later) = true)
    (hholds : HoldsFiles (tracedDumper started.dumper uses).dumper files) (calls : ℕ)
    (cut : Option Cut) :
    HoldsFiles (cutUses cut (tracedDumper started.dumper uses).dumper later calls)
      (persistUses cut files later calls) := by
  induction later generalizing uses files calls with
  | nil => exact hholds
  | cons use later ih =>
      rw [List.append_cons] at hstored
      have hfirst : removesStored [] (uses ++ [use]) = true := by
        rw [removesStored_append, Bool.and_eq_true] at hstored
        exact hstored.1
      have htidy : Tidy uses (tracedDumper started.dumper uses) := by
        rw [removesStored_concat, Bool.and_eq_true] at hfirst
        exact tidy_of_removesStored started hfirst.1
      cases calls with
      | zero => exact htidy.holds_cutUse hholds cut
      | succ calls =>
          have hmade := ih hstored (by
            rw [tracedDumper_concat]
            exact htidy.holds_use hholds) calls
          rwa [tracedDumper_concat] at hmade

end SockMyPort.Instancia
