import Mathlib.Data.List.Basic
import Mathlib.Data.List.Range

/-! Heap blocks with indeterminate contents. A fresh byte has no value until it
is written, so a result that mentions only values never rests on one. -/

namespace RpcLoop.Foundation

/-- One byte of storage; `none` until the program writes it. -/
abbrev Cell := Option UInt8

structure Block where
  size : Nat
  cell : Nat → Cell

namespace Block

def fresh (size : Nat) : Block where
  size := size
  cell _ := none

/-- Resizing keeps the common prefix and leaves the rest indeterminate. -/
def resize (block : Block) (size : Nat) : Block where
  size := size
  cell index := if index < block.size then block.cell index else none

def read (block : Block) (offset length : Nat) : List Cell :=
  (List.range length).map fun index => block.cell (offset + index)

def write (block : Block) (offset : Nat) (cells : List Cell) : Block where
  size := block.size
  cell index :=
    if offset ≤ index ∧ index < offset + cells.length then cells.getD (index - offset) none
    else block.cell index

@[simp] theorem size_fresh (size : Nat) : (fresh size).size = size := rfl

@[simp] theorem size_resize (block : Block) (size : Nat) : (block.resize size).size = size := rfl

@[simp] theorem size_write (block : Block) (offset : Nat) (cells : List Cell) :
    (block.write offset cells).size = block.size := rfl

@[simp] theorem length_read (block : Block) (offset length : Nat) :
    (block.read offset length).length = length := by
  simp [read]

private theorem getElem?_read (block : Block) {offset length index : Nat}
    (inside : index < length) :
    (block.read offset length)[index]? = some (block.cell (offset + index)) := by
  simp [read, inside]

theorem read_congr {first second : Block} {offset length : Nat}
    (same : ∀ index, offset ≤ index → index < offset + length →
      first.cell index = second.cell index) :
    first.read offset length = second.read offset length := by
  apply List.map_congr_left
  intro index member
  have bound := List.mem_range.mp member
  exact same _ (Nat.le_add_right _ _) (Nat.add_lt_add_left bound _)

theorem read_append (block : Block) (offset first second : Nat) :
    block.read offset (first + second) =
      block.read offset first ++ block.read (offset + first) second := by
  simp only [read, List.range_add, List.map_append, List.map_map]
  congr 1
  apply List.map_congr_left
  intro index _
  simp [Nat.add_assoc]

/-- What was written is read back. -/
theorem read_write (block : Block) (offset : Nat) (cells : List Cell) :
    (block.write offset cells).read offset cells.length = cells := by
  apply List.ext_getElem?
  intro index
  by_cases inside : index < cells.length
  · rw [getElem?_read _ inside]
    have range : offset ≤ offset + index ∧ offset + index < offset + cells.length := by omega
    simp [write, range, inside]
  · rw [List.getElem?_eq_none (by simpa using inside), List.getElem?_eq_none (by omega)]

/-- A write leaves every disjoint range alone. -/
theorem read_write_disjoint (block : Block) {offset length target : Nat} {cells : List Cell}
    (disjoint : offset + length ≤ target ∨ target + cells.length ≤ offset) :
    (block.write target cells).read offset length = block.read offset length := by
  apply read_congr
  intro index lower upper
  have outside : ¬ (target ≤ index ∧ index < target + cells.length) := by omega
  simp only [write, outside, if_false]

/-- Writing the same cells again changes nothing. -/
theorem write_write (block : Block) (offset : Nat) (cells : List Cell) :
    (block.write offset cells).write offset cells = block.write offset cells := by
  unfold write
  congr 1
  funext index
  by_cases inside : offset ≤ index ∧ index < offset + cells.length
  · simp only [inside, and_self, if_true]
  · simp only [inside, if_false]

/-- Growing keeps every range of the old block. -/
theorem read_resize (block : Block) {offset length size : Nat}
    (inside : offset + length ≤ block.size) :
    (block.resize size).read offset length = block.read offset length := by
  apply read_congr
  intro index lower upper
  have old : index < block.size := by omega
  simp only [resize, old, if_true]

end Block

/-- The values of cells that have all been written. -/
def initialized (cells : List Cell) : Option (List UInt8) :=
  cells.mapM id

theorem initialized_map_some (bytes : List UInt8) : initialized (bytes.map some) = some bytes := by
  induction bytes with
  | nil => rfl
  | cons byte rest ih =>
    simp only [initialized] at ih
    simp [initialized, ih]

end RpcLoop.Foundation
