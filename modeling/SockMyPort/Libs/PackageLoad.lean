/-
# The load of a package

`add_content` does not look at the room that is left: it copies behind `load`, wherever
that is, and subtracts the size from `remaining_load`, a `size_t`. `check_package` then asks
whether this difference is above zero or below it, but a `size_t` is never below zero. A
package that is given too much is reported as one that misses something.
-/

import SockMyPort.Libs.EncodersAgree
import SockMyPort.Library.Memory

namespace SockMyPort.Libs.Unchecked

open SockMyPort.Protocolo Library

/-! ## The functions -/

/-- `size_t`, and a pointer. -/
abbrev SizeT := BitVec 64

/-- `package_t`, with the memory that `load` points into. -/
structure Package where
  memory : Memory 64 UInt8
  load : SizeT
  size : SizeT
  remainingLoad : SizeT

/-- `package_status`. -/
inductive PackageStatus
  | loadSuccess
  | loadMissing
  | loadExtra
  | sendSuccess
  | sendError
  deriving DecidableEq, Repr

/-- `create_package`, with the address that `malloc` gives. -/
def createPackage (memory : Memory 64 UInt8) (allocated size : SizeT) : Package where
  memory := memory
  load := allocated
  size := size
  remainingLoad := size

/-- `add_content`. -/
def addContent (package : Package) (content : List UInt8) : Package :=
  let contentSize := BitVec.ofNat 64 content.length
  { package with
    memory := package.memory.write package.load content
    load := package.load + contentSize
    remainingLoad := package.remainingLoad - contentSize }

/-- `add_content_variable`. -/
def addContentVariable (package : Package) (content : List UInt8) : Package :=
  addContent (addContent package (sizeBytes content.length)) content

/-- `check_package`. -/
def checkPackage (package : Package) : PackageStatus :=
  if package.remainingLoad > 0 then .loadMissing
  else if package.remainingLoad < 0 then .loadExtra
  else .loadSuccess

/-- `build_package`: the bytes of the serialized package, or `NULL`. -/
def buildPackage (package : Package) : Option (List UInt8) :=
  if checkPackage package = .loadSuccess then
    some (package.memory.read (package.load - package.size) package.size.toNat)
  else none

/-- The call of `add_content` or `add_content_variable`. -/
def addBlock (package : Package) : Block → Package
  | .fixed content => addContent package content
  | .variable content => addContentVariable package content

/-- A package after some calls. -/
def filledPackage (memory : Memory 64 UInt8) (allocated size : SizeT) (blocks : List Block) :
    Package :=
  blocks.foldl addBlock (createPackage memory allocated size)

/-! ## The property -/

/-- The bytes that some calls add. -/
def addedBytes (blocks : List Block) : List UInt8 := blocks.flatMap fun block => block.field.bytes

/-- The load is accounted for: the status compares what was added with the declared size,
and the package is built from exactly what was added when both agree. -/
structure Accounted (package : Package) (size : ℕ) (added : List UInt8) : Prop where
  success : checkPackage package = .loadSuccess ↔ added.length = size
  missing : checkPackage package = .loadMissing ↔ added.length < size
  extra : checkPackage package = .loadExtra ↔ size < added.length
  built : buildPackage package = if added.length = size then some added else none

variable {package : Package} {memory : Memory 64 UInt8} {allocated size : SizeT}
  {blocks : List Block} {content : List UInt8}

theorem length_addedBytes (blocks : List Block) :
    (addedBytes blocks).length = (blocks.map Block.size).sum := by
  rw [addedBytes, List.length_flatMap]
  simp only [Block.length_bytes_field]

/-! ## What the status is -/

/-- No package is found to have too much. -/
theorem checkPackage_ne_loadExtra (package : Package) : checkPackage package ≠ .loadExtra := by
  have hnever : ¬ package.remainingLoad < 0 := BitVec.not_lt_zero
  rw [checkPackage, if_neg hnever]
  split <;> exact nofun

theorem checkPackage_eq (package : Package) :
    checkPackage package = if package.remainingLoad = 0 then .loadSuccess else .loadMissing := by
  by_cases hfull : package.remainingLoad = 0
  · rw [checkPackage, hfull, if_pos rfl]
    rfl
  · have hpos : package.remainingLoad > 0 := (BitVec.pos_iff_ne_zero _).mpr hfull
    rw [checkPackage, if_pos hpos, if_neg hfull]

theorem remainingLoad_addBlock (package : Package) (block : Block) :
    (addBlock package block).remainingLoad =
      package.remainingLoad - BitVec.ofNat 64 block.size := by
  cases block with
  | fixed content => rfl
  | «variable» content =>
      show package.remainingLoad - BitVec.ofNat 64 (sizeBytes content.length).length -
        BitVec.ofNat 64 content.length =
          package.remainingLoad - BitVec.ofNat 64 (8 + content.length)
      rw [length_sizeBytes, BitVec.ofNat_add, sub_sub]

/-- The room that is left is a difference of two `size_t`s. -/
theorem remainingLoad_foldl (package : Package) (blocks : List Block) :
    (blocks.foldl addBlock package).remainingLoad =
      package.remainingLoad - BitVec.ofNat 64 (blocks.map Block.size).sum := by
  induction blocks generalizing package with
  | nil => exact (sub_zero _).symm
  | cons block blocks ih =>
      rw [List.foldl_cons, ih, remainingLoad_addBlock, List.map_cons, List.sum_cons,
        BitVec.ofNat_add, sub_sub]

/-- **The status after some calls** compares what they add with the declared size up to a
multiple of `2 ^ 64`. -/
theorem checkPackage_filledPackage :
    checkPackage (filledPackage memory allocated size blocks) =
      if (addedBytes blocks).length % 2 ^ 64 = size.toNat then .loadSuccess else .loadMissing := by
  have hroom : (filledPackage memory allocated size blocks).remainingLoad = 0 ↔
      (addedBytes blocks).length % 2 ^ 64 = size.toNat := by
    rw [filledPackage, remainingLoad_foldl, ← length_addedBytes]
    show size - _ = 0 ↔ _
    rw [sub_eq_zero, ← BitVec.toNat_inj, BitVec.toNat_ofNat, eq_comm]
  rw [checkPackage_eq]
  simp only [hroom]

/-! ## What is built -/

/-- A package whose writes stay inside its load is the one in which they are checked. -/
structure Represents (package : Package) (checked : Libs.Package) : Prop where
  size : package.size.toNat = checked.size
  room : package.remainingLoad.toNat = checked.remainingLoad
  full : checked.load.length + checked.remainingLoad = checked.size
  load : ∃ allocated, package.load = allocated + BitVec.ofNat 64 checked.load.length ∧
    package.memory.read allocated checked.load.length = checked.load

theorem represents_createPackage (memory : Memory 64 UInt8) (allocated size : SizeT) :
    Represents (createPackage memory allocated size) (Libs.createPackage size.toNat) where
  size := rfl
  room := rfl
  full := Nat.zero_add _
  load := ⟨allocated, (add_zero _).symm, rfl⟩

/-- **One call**: what fits is written behind what is there. -/
theorem Represents.addContent {checked next : Libs.Package} (hrep : Represents package checked)
    (hadd : Libs.addContent checked content = some next) :
    Represents (addContent package content) next := by
  obtain ⟨hfits, hnext⟩ := Option.ite_none_right_eq_some.mp hadd
  obtain rfl := Option.some.inj hnext
  obtain ⟨allocated, hload, hread⟩ := hrep.load
  have hsize := hrep.size
  have hroom := hrep.room
  have hfull := hrep.full
  have hbound := package.size.isLt
  have hcontent : (BitVec.ofNat 64 content.length).toNat = content.length := by
    rw [BitVec.toNat_ofNat, Nat.mod_eq_of_lt (by omega)]
  refine ⟨hsize, ?_, ?_, allocated, ?_, ?_⟩
  · show (package.remainingLoad - BitVec.ofNat 64 content.length).toNat =
      checked.remainingLoad - content.length
    rw [BitVec.toNat_sub_of_le (by rw [BitVec.le_def]; omega), hcontent, hroom]
  · show (checked.load ++ content).length + (checked.remainingLoad - content.length) = checked.size
    rw [List.length_append]
    omega
  · show package.load + BitVec.ofNat 64 content.length =
      allocated + BitVec.ofNat 64 (checked.load ++ content).length
    rw [hload, List.length_append, BitVec.ofNat_add, add_assoc]
  · show (package.memory.write package.load content).read allocated
      (checked.load ++ content).length = checked.load ++ content
    rw [hload, List.length_append]
    exact Memory.read_write_append hread (by omega)

theorem Represents.addContentVariable {checked next : Libs.Package}
    (hrep : Represents package checked)
    (hadd : Libs.addContentVariable checked content = some next) :
    Represents (addContentVariable package content) next := by
  obtain ⟨sized, hsized, hnext⟩ := Option.bind_eq_some_iff.mp hadd
  exact (hrep.addContent hsized).addContent hnext

/-- **All calls**: as long as the checked package takes them, both hold the same. -/
theorem Represents.foldl {checked next : Libs.Package} (hrep : Represents package checked)
    (hadd : blocks.foldlM Libs.addBlock checked = some next) :
    Represents (blocks.foldl addBlock package) next := by
  induction blocks generalizing package checked with
  | nil =>
      obtain rfl := Option.some.inj hadd
      exact hrep
  | cons block blocks ih =>
      obtain ⟨added, hadded, hrest⟩ := Option.bind_eq_some_iff.mp hadd
      refine ih ?_ hrest
      cases block with
      | fixed content => exact hrep.addContent hadded
      | «variable» content => exact hrep.addContentVariable hadded

/-- A full package is built from its load. -/
theorem Represents.buildPackage {checked : Libs.Package} (hrep : Represents package checked) :
    buildPackage package = Libs.buildPackage checked := by
  have hfull : package.remainingLoad = 0 ↔ checked.remainingLoad = 0 := by
    rw [← hrep.room, ← BitVec.toNat_inj]
    rfl
  rw [Unchecked.buildPackage, Libs.buildPackage, checkPackage_eq]
  by_cases hroom : checked.remainingLoad = 0
  · obtain ⟨allocated, hload, hread⟩ := hrep.load
    have hlength : checked.load.length = package.size.toNat := by
      rw [hrep.size, ← hrep.full, hroom, Nat.add_zero]
    have hstart : package.load - package.size = allocated := by
      rw [hload, hlength, BitVec.ofNat_toNat, BitVec.setWidth_eq, BitVec.add_sub_cancel]
    rw [if_pos (hfull.mpr hroom), if_pos rfl, if_pos hroom, hstart, ← hlength, hread]
  · rw [if_neg (mt hfull.mp hroom), if_neg hroom]
    rfl

/-! ## The result -/

/-- What fits is built as it was added. -/
theorem buildPackage_filledPackage (hfits : (addedBytes blocks).length ≤ size.toNat) :
    buildPackage (filledPackage memory allocated size blocks) =
      if (addedBytes blocks).length = size.toNat then some (addedBytes blocks) else none := by
  obtain ⟨checked, hadd, hload, hroom⟩ := exists_foldlM_addBlock blocks
    (holds_createPackage size.toNat) (by rwa [List.length_nil, Nat.zero_add, ← length_addedBytes])
  have hrep := (represents_createPackage memory allocated size).foldl hadd
  rw [List.nil_append] at hload hroom
  rw [filledPackage, hrep.buildPackage, Libs.buildPackage, hload]
  replace hroom : checked.remainingLoad + (addedBytes blocks).length = size.toNat := hroom
  by_cases hfull : (addedBytes blocks).length = size.toNat
  · rw [if_pos (by omega), if_pos hfull]
    rfl
  · rw [if_neg (by omega), if_neg hfull]

/-- **The load is accounted for exactly when it is not more than was declared.** -/
theorem accounted_filledPackage_iff (memory : Memory 64 UInt8) (allocated size : SizeT)
    (blocks : List Block) :
    Accounted (filledPackage memory allocated size blocks) size.toNat (addedBytes blocks) ↔
      (addedBytes blocks).length ≤ size.toNat := by
  constructor
  · intro haccounted
    by_contra hextra
    exact checkPackage_ne_loadExtra _ (haccounted.extra.mpr (Nat.lt_of_not_le hextra))
  · intro hfits
    have hbound := size.isLt
    have hstatus : checkPackage (filledPackage memory allocated size blocks) =
        if (addedBytes blocks).length = size.toNat then .loadSuccess else .loadMissing := by
      rw [checkPackage_filledPackage, Nat.mod_eq_of_lt (by omega)]
    constructor
    case success =>
      rw [hstatus]
      by_cases hfull : (addedBytes blocks).length = size.toNat
      · exact iff_of_true (if_pos hfull) hfull
      · rw [if_neg hfull]
        exact iff_of_false nofun hfull
    case missing =>
      rw [hstatus]
      by_cases hfull : (addedBytes blocks).length = size.toNat
      · rw [if_pos hfull]
        exact iff_of_false nofun hfull.not_lt
      · exact iff_of_true (if_neg hfull) (lt_of_le_of_ne hfits hfull)
    case extra => exact iff_of_false (checkPackage_ne_loadExtra _) (Nat.not_lt.mpr hfits)
    case built => exact buildPackage_filledPackage hfits

/-- Two bytes are added to a package of one. -/
theorem not_accounted : ¬ ∀ (memory : Memory 64 UInt8) (allocated size : SizeT)
    (blocks : List Block),
      Accounted (filledPackage memory allocated size blocks) size.toNat (addedBytes blocks) := by
  intro hall
  have hextra := (hall (fun _ => 0) 0 1 [.fixed [97, 98]]).extra.mpr (by decide)
  have hmissing : checkPackage (filledPackage (fun _ => 0) 0 1 [.fixed [97, 98]]) =
      .loadMissing := by decide
  rw [hextra] at hmissing
  cases hmissing

end SockMyPort.Libs.Unchecked
