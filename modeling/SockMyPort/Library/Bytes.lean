/-
# A flat byte memory

Contiguous reads and writes over a list of cells, with the two facts that a
store built on them needs: a read sees the last write to its own range, and a
write leaves every disjoint range alone. The cells are of an arbitrary type.
-/

import Mathlib.Data.List.Basic

namespace Library

universe u

variable {β : Type u}

/-- The `count` cells from `offset` on. -/
def readCells (memory : List β) (offset count : ℕ) : List β :=
  (memory.drop offset).take count

/-- Copy `cells` over the memory from `offset` on. -/
def writeCells (memory : List β) (offset : ℕ) (cells : List β) : List β :=
  memory.take offset ++ cells ++ memory.drop (offset + cells.length)

theorem length_readCells {memory : List β} {offset count : ℕ}
    (hroom : offset + count ≤ memory.length) : (readCells memory offset count).length = count := by
  simp only [readCells, List.length_take, List.length_drop]
  omega

@[simp]
theorem length_writeCells {memory : List β} {offset : ℕ} {cells : List β}
    (hroom : offset + cells.length ≤ memory.length) :
    (writeCells memory offset cells).length = memory.length := by
  simp only [writeCells, List.length_append, List.length_take, List.length_drop]
  omega

/-- What was written is read back. -/
theorem readCells_writeCells_same {memory : List β} {offset : ℕ} {cells : List β}
    (hroom : offset + cells.length ≤ memory.length) :
    readCells (writeCells memory offset cells) offset cells.length = cells := by
  have htake : (memory.take offset).length = offset := by
    rw [List.length_take]
    omega
  have hdrop : (memory.take offset ++ (cells ++ memory.drop (offset + cells.length))).drop offset =
      cells ++ memory.drop (offset + cells.length) :=
    List.drop_left' htake
  rw [readCells, writeCells, List.append_assoc, hdrop, List.take_left' rfl]

/-- A single cell outside the written range is unchanged. -/
theorem getElem?_writeCells_of_outside {memory : List β} {offset index : ℕ} {cells : List β}
    (hroom : offset + cells.length ≤ memory.length)
    (houtside : index < offset ∨ offset + cells.length ≤ index) :
    (writeCells memory offset cells)[index]? = memory[index]? := by
  have htake : (memory.take offset).length = offset := by
    rw [List.length_take]
    omega
  rw [writeCells, List.append_assoc]
  rcases houtside with hbefore | hafter
  · rw [List.getElem?_append_left (by omega), List.getElem?_take_of_lt hbefore]
  · rw [List.getElem?_append_right (by omega), List.getElem?_append_right (by omega),
      List.getElem?_drop]
    congr 1
    omega

/-- A write leaves every disjoint range alone. -/
theorem readCells_writeCells_of_disjoint {memory : List β} {offset start count : ℕ}
    {cells : List β} (hroom : offset + cells.length ≤ memory.length)
    (hdisjoint : start + count ≤ offset ∨ offset + cells.length ≤ start) :
    readCells (writeCells memory offset cells) start count = readCells memory start count := by
  apply List.ext_getElem?
  intro index
  simp only [readCells]
  by_cases hindex : index < count
  · rw [List.getElem?_take_of_lt hindex, List.getElem?_take_of_lt hindex, List.getElem?_drop,
      List.getElem?_drop]
    exact getElem?_writeCells_of_outside hroom (by omega)
  · rw [List.getElem?_eq_none (by rw [List.length_take]; omega),
      List.getElem?_eq_none (by rw [List.length_take]; omega)]

end Library
