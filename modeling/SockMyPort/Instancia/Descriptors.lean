/-
# The descriptors of the dumper

`dumper_create_key_value` opens a descriptor for a key, and `dumper_remove_key_value`
closes the one that the dictionary has for a key. Where the dictionary has none, the
descriptor `0` is closed, which is somebody else's at first and can come to be that of
another key. The calls are followed with a log of what they open and close, and nothing
of others is closed exactly when every key that is removed has been stored since it was
last removed.
-/

import SockMyPort.Instancia.DumpRecovery
import SockMyPort.Library.Handles
import Mathlib.Data.List.Induction

namespace SockMyPort.Instancia

open SockMyPort.Commons Library

/-! ## The calls and their log -/

/-- The calls of the dumper that use descriptors. -/
inductive DumperUse
  | create (key : CString)
  | store (key : CString) (data : List UInt8)
  | remove (key : CString)
  deriving DecidableEq

/-- One call. -/
def useDumper (dumper : Dumper) : DumperUse → Dumper
  | .create key => (dumperCreateKeyValue dumper key).1
  | .store key data => dumperStore dumper key data
  | .remove key => dumperRemoveKeyValue dumper key

/-- The descriptor that `dumper_remove_key_value` closes. -/
def closedDescriptor (dumper : Dumper) (key : CString) : ℕ :=
  (dictionaryGet dumper.fileDictionary key).getD 0

/-- What a call opens and closes. -/
def descriptorEvents (dumper : Dumper) : DumperUse → List (HandleEvent CString ℕ)
  | .create key => [.opened key (dumperCreateKeyValue dumper key).2]
  | .store key _ =>
      if dictionaryHasKey dumper.fileDictionary key then []
      else [.opened key (dumperCreateKeyValue dumper key).2]
  | .remove key => [.closed key (closedDescriptor dumper key)]

/-- A dumper with the log of its descriptors. -/
structure TracedDumper where
  dumper : Dumper
  events : List (HandleEvent CString ℕ)

/-- One call, which is logged. -/
def TracedDumper.use (traced : TracedDumper) (use : DumperUse) : TracedDumper where
  dumper := useDumper traced.dumper use
  events := traced.events ++ descriptorEvents traced.dumper use

/-- Some calls, with an empty log at first. -/
def tracedDumper (start : Dumper) (uses : List DumperUse) : TracedDumper :=
  uses.foldl TracedDumper.use { dumper := start, events := [] }

/-! ## Own files -/

/-- What `dumper_remove_key_value` closes for a key was opened for the same key and is
still open. -/
structure ClosesOwn (traced : TracedDumper) (key : CString) : Prop where
  opened : OpenedFor traced.events key (closedDescriptor traced.dumper key)
  isOpen : dictionaryHasKey traced.dumper.descriptors (closedDescriptor traced.dumper key) = true

/-- The descriptor that the dictionary has for a key is open on the file that the
directory has under the name of the key, and under no other name. -/
def RefersToOwn (dumper : Dumper) : Prop :=
  ∀ key fd, dictionaryGet dumper.fileDictionary key = some fd →
    ∃ file, dictionaryGet dumper.descriptors fd = some (some file) ∧
      ∀ name, dictionaryGet dumper.directory name = some file ↔
        name = getKeyValueFileName dumper key

/-- At every call only own files are closed, and before and after every call the
dictionary refers to own files only. -/
structure OwnFiles (start : Dumper) (uses : List DumperUse) : Prop where
  closes : ∀ before key after, uses = before ++ .remove key :: after →
    ClosesOwn (tracedDumper start before) key
  refers : ∀ before after, uses = before ++ after →
    RefersToOwn (tracedDumper start before).dumper

/-- What `dumper_init` leaves, on any directory: nothing is in the dictionary, and the
descriptor `0` is open and not a file of the dumper. -/
structure StartedDumper where
  dumper : Dumper
  filesApart : FilesApart dumper
  fileDictionary_eq : dumper.fileDictionary = []
  standardInput : dictionaryGet dumper.descriptors 0 = some none
  descriptors_nodup : (dumper.descriptors.map Prod.fst).Nodup

/-- On an empty directory. -/
def startedDumper (mountPoint : CString) : StartedDumper where
  dumper := dumperInit mountPoint
  filesApart := (filed_dumperInit mountPoint).filesApart
  fileDictionary_eq := rfl
  standardInput := rfl
  descriptors_nodup := by simp [dumperInit]

/-- On the directory that an earlier process left. -/
def StartedDumper.restart {dumper : Dumper} (hfiles : FilesApart dumper) : StartedDumper where
  dumper := dumperRestart dumper
  filesApart := hfiles.of_descriptors _ _
  fileDictionary_eq := rfl
  standardInput := rfl
  descriptors_nodup := by simp [dumperRestart]

/-! ## Stored keys -/

/-- Whether a key is stored after a call. -/
def DumperUse.leavesStored (key : CString) (stored : Bool) : DumperUse → Bool
  | .create other => decide (other = key) || stored
  | .store other _ => decide (other = key) || stored
  | .remove other => decide (other ≠ key) && stored

/-- A key has been stored, or recovered, since it was last removed. -/
def isStored (uses : List DumperUse) (key : CString) : Bool :=
  uses.foldl (DumperUse.leavesStored key) false

/-- A removal is of a key that is stored. -/
def DumperUse.removesStored (earlier : List DumperUse) : DumperUse → Bool
  | .remove key => isStored earlier key
  | _ => true

/-- After some calls, all removals are of keys that are stored. -/
def removesStored (earlier : List DumperUse) : List DumperUse → Bool
  | [] => true
  | use :: uses => use.removesStored earlier && removesStored (earlier ++ [use]) uses

theorem isStored_concat (uses : List DumperUse) (use : DumperUse) (key : CString) :
    isStored (uses ++ [use]) key = use.leavesStored key (isStored uses key) := by
  rw [isStored, List.foldl_concat]
  rfl

theorem removesStored_append (earlier first second : List DumperUse) :
    removesStored earlier (first ++ second) =
      (removesStored earlier first && removesStored (earlier ++ first) second) := by
  induction first generalizing earlier with
  | nil => rw [List.nil_append, List.append_nil]; rfl
  | cons use first ih =>
      rw [List.cons_append, removesStored, removesStored, ih, List.append_assoc,
        List.singleton_append, Bool.and_assoc]

theorem tracedDumper_concat (start : Dumper) (uses : List DumperUse) (use : DumperUse) :
    tracedDumper start (uses ++ [use]) = (tracedDumper start uses).use use :=
  List.foldl_concat _ _ _ _

/-- The log does not change what the calls do. -/
theorem tracedDumper_dumper (start : Dumper) (uses : List DumperUse) :
    (tracedDumper start uses).dumper = uses.foldl useDumper start := by
  induction uses using List.reverseRecOn with
  | nil => rfl
  | append_singleton uses use ih =>
      rw [tracedDumper_concat, List.foldl_concat, ← ih]
      rfl

/-! ## The free descriptor -/

theorem dictionaryGet_lowestFree (descriptors : List (ℕ × Option ℕ)) :
    dictionaryGet descriptors (lowestFree descriptors) = none := by
  cases hfind : (List.range (descriptors.length + 1)).find? fun fd =>
      !dictionaryHasKey descriptors fd with
  | none =>
      obtain ⟨fd, hlt, hfree⟩ := exists_lt_not_mem (descriptors.map Prod.fst)
      rw [List.length_map] at hlt
      have hused := List.find?_eq_none.mp hfind fd (List.mem_range.mpr hlt)
      rw [dictionaryHasKey_eq, dictionaryGet_eq_none_iff.mpr hfree] at hused
      exact absurd rfl hused
  | some fd =>
      have hfree := List.find?_some hfind
      rw [lowestFree, hfind, Option.getD_some]
      simpa [dictionaryHasKey_eq] using hfree

/-- An open descriptor is not the free one. -/
theorem ne_lowestFree {descriptors : List (ℕ × Option ℕ)} {fd : ℕ} {denoted : Option ℕ}
    (hopen : dictionaryGet descriptors fd = some denoted) : fd ≠ lowestFree descriptors := by
  rintro rfl
  rw [dictionaryGet_lowestFree] at hopen
  cases hopen

/-! ## The invariant -/

/-- Nothing of others has been closed. The dictionary has the keys that are stored, each
with a descriptor that was opened for it and is open on its file. -/
structure Tidy (uses : List DumperUse) (traced : TracedDumper) : Prop where
  filesApart : FilesApart traced.dumper
  keys_nodup : (traced.dumper.fileDictionary.map Prod.fst).Nodup
  descriptors_nodup : (traced.dumper.descriptors.map Prod.fst).Nodup
  own : ∀ {key fd}, dictionaryGet traced.dumper.fileDictionary key = some fd →
    ∃ file, dictionaryGet traced.dumper.descriptors fd = some (some file) ∧
      dictionaryGet traced.dumper.directory (getKeyValueFileName traced.dumper key) = some file
  opened : ∀ {key fd}, dictionaryGet traced.dumper.fileDictionary key = some fd →
    OpenedFor traced.events key fd
  standardInput : dictionaryGet traced.dumper.descriptors 0 = some none
  untouched : ∀ event ∈ traced.events, event.handle ≠ 0
  stored : ∀ key, isStored uses key = (dictionaryGet traced.dumper.fileDictionary key).isSome

variable {uses : List DumperUse} {traced : TracedDumper} {key other : CString} {fd : ℕ}

theorem StartedDumper.tidy (started : StartedDumper) :
    Tidy [] (tracedDumper started.dumper []) := by
  have hnone : ∀ key, dictionaryGet started.dumper.fileDictionary key = none := by
    intro key
    rw [started.fileDictionary_eq]
    rfl
  have hempty : (started.dumper.fileDictionary.map Prod.fst).Nodup := by
    rw [started.fileDictionary_eq]
    exact List.nodup_nil
  refine ⟨started.filesApart, hempty, started.descriptors_nodup, fun {key fd} hget => ?_,
    fun {key fd} hget => ?_, started.standardInput, fun event hmem => ?_, fun key => ?_⟩
  · exact absurd ((hnone key).symm.trans hget) (by simp)
  · exact absurd ((hnone key).symm.trans hget) (by simp)
  · exact absurd hmem List.not_mem_nil
  · show false = _
    rw [show dictionaryGet (tracedDumper started.dumper []).dumper.fileDictionary key = none from
      hnone key]
    rfl

namespace Tidy

theorem refersToOwn (htidy : Tidy uses traced) : RefersToOwn traced.dumper := by
  intro key fd hget
  obtain ⟨file, hopen, hfile⟩ := htidy.own hget
  refine ⟨file, hopen, fun name => ⟨fun hname => htidy.filesApart.apart hname hfile, ?_⟩⟩
  rintro rfl
  exact hfile

/-- A descriptor is that of one key. -/
theorem eq_of_get (htidy : Tidy uses traced)
    (hkey : dictionaryGet traced.dumper.fileDictionary key = some fd)
    (hother : dictionaryGet traced.dumper.fileDictionary other = some fd) : key = other :=
  (htidy.opened hkey).unique (htidy.opened hother)

/-- The descriptor `0` is that of no key. -/
theorem ne_zero (htidy : Tidy uses traced)
    (hget : dictionaryGet traced.dumper.fileDictionary key = some fd) : fd ≠ 0 :=
  htidy.untouched _ (htidy.opened hget).mem

/-- **A key that is stored closes its own file.** -/
theorem closesOwn_iff (htidy : Tidy uses traced) :
    ClosesOwn traced key ↔ isStored uses key = true := by
  rw [htidy.stored]
  cases hget : dictionaryGet traced.dumper.fileDictionary key with
  | none =>
      have hclosed : closedDescriptor traced.dumper key = 0 := by
        rw [closedDescriptor, hget]
        rfl
      refine ⟨fun hcloses => ?_, fun hstored => by cases hstored⟩
      have hopened := hcloses.opened
      rw [hclosed] at hopened
      exact absurd rfl (htidy.untouched _ hopened.mem)
  | some fd =>
      have hclosed : closedDescriptor traced.dumper key = fd := by
        rw [closedDescriptor, hget]
        rfl
      obtain ⟨file, hopen, -⟩ := htidy.own hget
      refine ⟨fun _ => rfl, fun _ => ⟨?_, ?_⟩⟩
      · rw [hclosed]
        exact htidy.opened hget
      · rw [hclosed, dictionaryHasKey_eq, hopen]
        rfl

end Tidy

/-! ## One call -/

/-- What opening the file of a key changes. -/
theorem exists_dumperCreateKeyValue_eq {dumper : Dumper} (hfiles : FilesApart dumper)
    (key : CString) :
    ∃ directory contents file,
      dumperCreateKeyValue dumper key =
        ({ dumper with
            directory := directory
            contents := contents
            descriptors := (lowestFree dumper.descriptors, some file) :: dumper.descriptors
            fileDictionary :=
              dictionaryPut dumper.fileDictionary key (lowestFree dumper.descriptors) },
          lowestFree dumper.descriptors) ∧
      FilesApart { dumper with directory := directory, contents := contents } ∧
      dictionaryGet directory (getKeyValueFileName dumper key) = some file ∧
      ∀ name, name ≠ getKeyValueFileName dumper key →
        dictionaryGet directory name = dictionaryGet dumper.directory name := by
  cases hget : dictionaryGet dumper.directory (getKeyValueFileName dumper key) with
  | some file =>
      exact ⟨dumper.directory, dumper.contents, file, dumperCreateKeyValue_of_some hget, hfiles,
        hget, fun _ _ => rfl⟩
  | none =>
      exact ⟨_, _, dumper.contents.length, dumperCreateKeyValue_of_none hget, hfiles.create hget,
        dictionaryGet_cons_self _ _ _, fun _ hne => dictionaryGet_cons_of_ne hne⟩

namespace Tidy

theorem create (htidy : Tidy uses traced) (key : CString) :
    Tidy (uses ++ [.create key]) (traced.use (.create key)) := by
  obtain ⟨directory, contents, file, hcreate, hfiles, hfile, hothers⟩ :=
    exists_dumperCreateKeyValue_eq htidy.filesApart key
  have htraced : traced.use (.create key) =
      { dumper :=
          { traced.dumper with
            directory := directory
            contents := contents
            descriptors :=
              (lowestFree traced.dumper.descriptors, some file) :: traced.dumper.descriptors
            fileDictionary := dictionaryPut traced.dumper.fileDictionary key
              (lowestFree traced.dumper.descriptors) }
        events := traced.events ++ [.opened key (lowestFree traced.dumper.descriptors)] } := by
    simp only [TracedDumper.use, useDumper, descriptorEvents, hcreate]
  rw [htraced]
  have hzero : lowestFree traced.dumper.descriptors ≠ 0 :=
    (ne_lowestFree htidy.standardInput).symm
  constructor
  case filesApart => exact hfiles.of_descriptors _ _
  case keys_nodup => exact nodup_dictionaryPut htidy.keys_nodup key _
  case descriptors_nodup =>
    exact List.nodup_cons.mpr
      ⟨dictionaryGet_eq_none_iff.mp (dictionaryGet_lowestFree _), htidy.descriptors_nodup⟩
  case own =>
    intro other fd hget
    by_cases hother : other = key
    · rw [hother, dictionaryGet_dictionaryPut_self] at hget
      rw [hother, ← Option.some.inj hget]
      exact ⟨file, dictionaryGet_cons_self _ _ _, hfile⟩
    · rw [dictionaryGet_dictionaryPut_of_ne hother] at hget
      obtain ⟨otherFile, hopen, hotherFile⟩ := htidy.own hget
      have hname : getKeyValueFileName traced.dumper other ≠
          getKeyValueFileName traced.dumper key :=
        fun hsame => hother (getKeyValueFileName_injective hsame)
      exact ⟨otherFile, (dictionaryGet_cons_of_ne (ne_lowestFree hopen)).trans hopen,
        (hothers _ hname).trans hotherFile⟩
  case opened =>
    intro other fd hget
    by_cases hother : other = key
    · rw [hother, dictionaryGet_dictionaryPut_self] at hget
      rw [hother, ← Option.some.inj hget]
      exact openedFor_append_opened _ _ _
    · rw [dictionaryGet_dictionaryPut_of_ne hother] at hget
      obtain ⟨otherFile, hopen, -⟩ := htidy.own hget
      exact (htidy.opened hget).append_of_ne (ne_lowestFree hopen).symm
  case standardInput => exact (dictionaryGet_cons_of_ne hzero.symm).trans htidy.standardInput
  case untouched =>
    intro event hevent
    rcases List.mem_append.mp hevent with hevent | hevent
    · exact htidy.untouched event hevent
    · rw [List.mem_singleton.mp hevent]
      exact hzero
  case stored =>
    intro other
    rw [isStored_concat, DumperUse.leavesStored, htidy.stored]
    by_cases hother : key = other
    · rw [hother, dictionaryGet_dictionaryPut_self, decide_eq_true rfl]
      rfl
    · rw [dictionaryGet_dictionaryPut_of_ne (Ne.symm hother), decide_eq_false hother]
      rfl

/-- The contents of the file of a key are nobody's concern but its own. -/
theorem write {file : ℕ} (htidy : Tidy uses traced) (data : List UInt8)
    (hfile : dictionaryGet traced.dumper.directory (getKeyValueFileName traced.dumper key) =
      some file) :
    Tidy uses
      { traced with
        dumper :=
          { traced.dumper with
            contents := dictionaryPut traced.dumper.contents file data } } where
  filesApart := htidy.filesApart.write data hfile
  keys_nodup := htidy.keys_nodup
  descriptors_nodup := htidy.descriptors_nodup
  own := htidy.own
  opened := htidy.opened
  standardInput := htidy.standardInput
  untouched := htidy.untouched
  stored := htidy.stored

/-- A store writes to the file of a key that is stored, or else opens it first. -/
theorem store (htidy : Tidy uses traced) (key : CString) (data : List UInt8) :
    Tidy (uses ++ [.store key data]) (traced.use (.store key data)) := by
  cases hget : dictionaryGet traced.dumper.fileDictionary key with
  | some fd =>
      obtain ⟨file, hopen, hfile⟩ := htidy.own hget
      have htraced : traced.use (.store key data) =
          { traced with
            dumper :=
              { traced.dumper with
                contents := dictionaryPut traced.dumper.contents file data } } := by
        simp only [TracedDumper.use, useDumper, dumperStore, descriptorEvents, dictionaryHasKey_eq,
          hget, hopen, Option.isSome_some, if_true, List.append_nil]
      have hstored : ∀ other, isStored (uses ++ [.store key data]) other = isStored uses other := by
        intro other
        rw [isStored_concat, DumperUse.leavesStored]
        by_cases hother : key = other
        · rw [← hother, htidy.stored, hget, Option.isSome_some, Bool.or_true]
        · rw [decide_eq_false hother, Bool.false_or]
      rw [htraced]
      have hwritten := htidy.write data hfile
      exact { hwritten with stored := fun other => (hstored other).trans (hwritten.stored other) }
  | none =>
      have hcreated := htidy.create key
      have hput : dictionaryGet (traced.use (.create key)).dumper.fileDictionary key =
          some (dumperCreateKeyValue traced.dumper key).2 := by
        simp only [TracedDumper.use, useDumper, dumperCreateKeyValue]
        split <;> exact dictionaryGet_dictionaryPut_self _ _ _
      obtain ⟨file, hopen, hfile⟩ := hcreated.own hput
      have htraced : traced.use (.store key data) =
          { traced.use (.create key) with
            dumper :=
              { (traced.use (.create key)).dumper with
                contents :=
                  dictionaryPut (traced.use (.create key)).dumper.contents file data } } := by
        simp only [TracedDumper.use, useDumper] at hopen
        simp only [TracedDumper.use, useDumper, dumperStore, descriptorEvents, dictionaryHasKey_eq,
          hget, hopen, Option.isSome_none, Bool.false_eq_true, if_false]
      have hstored : ∀ other, isStored (uses ++ [.store key data]) other =
          isStored (uses ++ [.create key]) other := by
        intro other
        rw [isStored_concat, isStored_concat]
        rfl
      rw [htraced]
      have hwritten := hcreated.write data hfile
      exact { hwritten with stored := fun other => (hstored other).trans (hwritten.stored other) }

/-- A key that is stored is removed with its descriptor and its file. -/
theorem remove (htidy : Tidy uses traced) (hstored : isStored uses key = true) :
    Tidy (uses ++ [.remove key]) (traced.use (.remove key)) := by
  rw [htidy.stored] at hstored
  obtain ⟨fd, hget⟩ := Option.isSome_iff_exists.mp hstored
  have htraced : traced.use (.remove key) =
      { dumper :=
          { traced.dumper with
            fileDictionary := dictionaryRemove traced.dumper.fileDictionary key
            descriptors := dictionaryRemove traced.dumper.descriptors fd
            directory := dictionaryRemove traced.dumper.directory
              (getKeyValueFileName traced.dumper key) }
        events := traced.events ++ [.closed key fd] } := by
    simp only [TracedDumper.use, useDumper, dumperRemoveKeyValue, descriptorEvents,
      closedDescriptor, hget, Option.getD_some]
  rw [htraced]
  have hgone : dictionaryGet (dictionaryRemove traced.dumper.fileDictionary key) key = none :=
    dictionaryGet_dictionaryRemove_self htidy.keys_nodup key
  -- Every other key keeps its descriptor, which is not the one that is closed.
  have hothers : ∀ {other otherFd},
      dictionaryGet (dictionaryRemove traced.dumper.fileDictionary key) other = some otherFd →
      other ≠ key ∧ otherFd ≠ fd ∧
        dictionaryGet traced.dumper.fileDictionary other = some otherFd := by
    intro other otherFd hother
    have hne : other ≠ key := by
      rintro rfl
      rw [hgone] at hother
      cases hother
    rw [dictionaryGet_dictionaryRemove_of_ne hne] at hother
    refine ⟨hne, ?_, hother⟩
    rintro rfl
    exact hne (htidy.eq_of_get hother hget)
  constructor
  case filesApart => exact (htidy.filesApart.remove _).of_descriptors _ _
  case keys_nodup => exact nodup_dictionaryRemove htidy.keys_nodup key
  case descriptors_nodup => exact nodup_dictionaryRemove htidy.descriptors_nodup fd
  case own =>
    intro other otherFd hother
    obtain ⟨hne, hfd, hold⟩ := hothers hother
    obtain ⟨file, hopen, hfile⟩ := htidy.own hold
    have hname : getKeyValueFileName traced.dumper other ≠
        getKeyValueFileName traced.dumper key :=
      fun hsame => hne (getKeyValueFileName_injective hsame)
    exact ⟨file, (dictionaryGet_dictionaryRemove_of_ne hfd).trans hopen,
      (dictionaryGet_dictionaryRemove_of_ne hname).trans hfile⟩
  case opened =>
    intro other otherFd hother
    obtain ⟨-, hfd, hold⟩ := hothers hother
    exact (htidy.opened hold).append_of_ne hfd.symm
  case standardInput =>
    exact (dictionaryGet_dictionaryRemove_of_ne (htidy.ne_zero hget).symm).trans
      htidy.standardInput
  case untouched =>
    intro event hevent
    rcases List.mem_append.mp hevent with hevent | hevent
    · exact htidy.untouched event hevent
    · rw [List.mem_singleton.mp hevent]
      exact htidy.ne_zero hget
  case stored =>
    intro other
    rw [isStored_concat, DumperUse.leavesStored, htidy.stored]
    by_cases hother : key = other
    · rw [← hother, hgone, decide_eq_false (not_not_intro rfl), Bool.false_and]
      rfl
    · rw [dictionaryGet_dictionaryRemove_of_ne (Ne.symm hother), decide_eq_true hother,
        Bool.true_and]

/-- **The step lemma**: a call keeps the invariant when it removes stored keys only. -/
theorem use {use : DumperUse} (htidy : Tidy uses traced)
    (hstored : use.removesStored uses = true) : Tidy (uses ++ [use]) (traced.use use) := by
  cases use with
  | create key => exact htidy.create key
  | store key data => exact htidy.store key data
  | remove key => exact htidy.remove hstored

end Tidy

/-! ## Some calls -/

theorem removesStored_concat (uses : List DumperUse) (use : DumperUse) :
    removesStored [] (uses ++ [use]) = (removesStored [] uses && use.removesStored uses) := by
  rw [removesStored_append, removesStored, removesStored, List.nil_append, Bool.and_true]

/-- **The run lemma.** -/
theorem tidy_of_removesStored (started : StartedDumper) {uses : List DumperUse}
    (hstored : removesStored [] uses = true) :
    Tidy uses (tracedDumper started.dumper uses) := by
  induction uses using List.reverseRecOn with
  | nil => exact started.tidy
  | append_singleton uses use ih =>
      rw [removesStored_concat, Bool.and_eq_true] at hstored
      rw [tracedDumper_concat]
      exact (ih hstored.1).use hstored.2

/-- What holds of some calls holds of the first ones. -/
theorem OwnFiles.of_append {start : Dumper} {first second : List DumperUse}
    (hown : OwnFiles start (first ++ second)) : OwnFiles start first where
  closes before key after hsplit :=
    hown.closes before key (after ++ second) (by rw [hsplit, List.append_assoc, List.cons_append])
  refers before after hsplit :=
    hown.refers before (after ++ second) (by rw [hsplit, List.append_assoc])

/-- **Own files only.** The calls close and refer to own files exactly when every key that
is removed is stored. -/
theorem ownFiles_iff_removesStored (started : StartedDumper) (uses : List DumperUse) :
    OwnFiles started.dumper uses ↔ removesStored [] uses = true := by
  constructor
  · intro hown
    induction uses using List.reverseRecOn with
    | nil => rfl
    | append_singleton uses use ih =>
        have hbefore := ih hown.of_append
        rw [removesStored_concat, hbefore, Bool.true_and]
        cases use with
        | create key => rfl
        | store key data => rfl
        | remove key =>
            exact (tidy_of_removesStored started hbefore).closesOwn_iff.mp
              (hown.closes uses key [] rfl)
  · intro hstored
    constructor
    case closes =>
      rintro before key after rfl
      rw [removesStored_append, List.nil_append, Bool.and_eq_true, removesStored,
        Bool.and_eq_true] at hstored
      exact (tidy_of_removesStored started hstored.1).closesOwn_iff.mpr hstored.2.1
    case refers =>
      rintro before after rfl
      rw [removesStored_append, Bool.and_eq_true] at hstored
      exact (tidy_of_removesStored started hstored.1).refersToOwn

end SockMyPort.Instancia
