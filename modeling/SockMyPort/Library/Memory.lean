/-
# Memory with addresses that wrap around

A memory holds something at every address of a fixed width, and there is no end behind
which an access fails: what goes past the last address goes on at the first. A block that
is written piece by piece is read as a whole, as long as it does not meet itself.
-/

import Mathlib.Data.BitVec
import Mathlib.Data.List.GetD

namespace Library

universe u

/-- Something at every address. -/
abbrev Memory (w : ℕ) (α : Type u) := BitVec w → α

namespace Memory

variable {w : ℕ} {α : Type u}

/-- Copy a list to an address and those that follow it. -/
def write (memory : Memory w α) (address : BitVec w) (written : List α) : Memory w α :=
  fun other => written.getD (other - address).toNat (memory other)

/-- What is at an address and those that follow it. -/
def read (memory : Memory w α) (address : BitVec w) (count : ℕ) : List α :=
  (List.range count).map fun place => memory (address + BitVec.ofNat w place)

variable {memory : Memory w α} {address : BitVec w} {first second : List α}

/-- How far it is from one place of a block to another, around the memory if need be. -/
theorem toNat_sub_of_block {start place : ℕ} (hstart : start < 2 ^ w) (hplace : place < 2 ^ w) :
    ((address + BitVec.ofNat w place) - (address + BitVec.ofNat w start)).toNat =
      if start ≤ place then place - start else 2 ^ w - start + place := by
  have hshift : (address + BitVec.ofNat w place) - (address + BitVec.ofNat w start) =
      BitVec.ofNat w place - BitVec.ofNat w start :=
    add_sub_add_left_eq_sub _ _ _
  rw [hshift, BitVec.toNat_sub, BitVec.toNat_ofNat, BitVec.toNat_ofNat, Nat.mod_eq_of_lt hstart,
    Nat.mod_eq_of_lt hplace]
  split
  · rw [Nat.mod_eq_sub_mod (by omega), Nat.mod_eq_of_lt (by omega)]
    omega
  · exact Nat.mod_eq_of_lt (by omega)

/-- **What is written behind a block** is read with it. -/
theorem read_write_append (hread : memory.read address first.length = first)
    (hfits : first.length + second.length < 2 ^ w) :
    (memory.write (address + BitVec.ofNat w first.length) second).read address
      (first.length + second.length) = first ++ second := by
  apply List.ext_getElem
  · simp [read]
  · intro place hplace hboth
    rw [List.length_append] at hboth
    simp only [read, List.getElem_map, List.getElem_range, write]
    rw [toNat_sub_of_block (by omega) (by omega)]
    by_cases hfirst : place < first.length
    · have hold : memory (address + BitVec.ofNat w place) = first[place] := by
        have hsame := List.getElem_of_eq hread.symm hfirst
        simpa [read] using hsame.symm
      rw [if_neg (by omega), List.getD_eq_default _ _ (by omega), hold,
        List.getElem_append_left hfirst]
    · rw [if_pos (by omega), List.getD_eq_getElem _ _ (by omega),
        List.getElem_append_right (by omega)]

end Memory

end Library
