import ScrewLang.Program.Dump

/-!
# The tape

A row of signed 8-bit cells with one data cursor. The operations are total on any record; the cursor
of a tape that a machine works on lies on one of its cells, which is `Tape.WellFormed`.
Spec guidance: `SPEC_FULL.md` §3 and §9, component `machine`: `Tape`, `DataCursor`.
-/

namespace ScrewLang

/-- A row of cells and the index of the current one. -/
structure Tape where
  cells : Array Int8
  cursor : Nat
deriving DecidableEq, Repr

namespace Tape

/-- The length of a tape for which none is asked. -/
def defaultSize : Nat := 60000

/-- A tape of zeros with the cursor on its first cell. It has at least one cell. -/
def blank (size : Nat) : Tape :=
  ⟨Array.replicate (max size 1) 0, 0⟩

/-- How many cells a tape has. -/
def size (tape : Tape) : Nat :=
  tape.cells.size

/-- The cursor lies on the tape. -/
def WellFormed (tape : Tape) : Prop :=
  tape.cursor < tape.size

/-- The value of the current cell. -/
def get (tape : Tape) : Int8 :=
  tape.cells.getD tape.cursor 0

/-- Change the current cell by a function of its value. -/
def modify (tape : Tape) (change : Int8 → Int8) : Tape :=
  match tape with
  | ⟨cells, cursor⟩ =>
    let value := change (cells.getD cursor 0)
    ⟨cells.setIfInBounds cursor value, cursor⟩

/-- Put the cursor on another cell. -/
def seek (tape : Tape) (target : Nat) : Tape :=
  { tape with cursor := target }

/-- The bytes of the cells in a range. -/
def bytes (tape : Tape) (range : Dump.Range) : List UInt8 :=
  (tape.cells.toList.drop range.lower).take (range.upper + 1 - range.lower) |>.map Int8.toUInt8

/-- Set `count` cells to zero, from the cell `start` on. -/
def zero (cells : Array Int8) (start : Nat) : (count : Nat) → Array Int8
  | 0 => cells
  | count + 1 => (zero cells start count).setIfInBounds (start + count) 0

/-- Set the cells in a range to zero and put the cursor on the first of them. -/
def clear (tape : Tape) (range : Dump.Range) : Tape :=
  match tape with
  | ⟨cells, _⟩ => ⟨zero cells range.lower (range.upper + 1 - range.lower), range.lower⟩

/-- The cells that differ from zero, with their indices. -/
def nonzero (tape : Tape) : List (Nat × Int8) :=
  (tape.cells.toList.zipIdx.filter fun cell => cell.1 != 0).map Prod.swap

/-- A blank tape has the length asked for, but at least one cell. -/
theorem size_blank (n : Nat) : (blank n).size = max n 1 := by
  simp [blank, size]

/-- A blank tape has its cursor on a cell. -/
theorem wellFormed_blank (n : Nat) : (blank n).WellFormed := by
  rw [WellFormed, size_blank]
  show 0 < max n 1
  omega

/-- Changing a cell keeps the length. -/
theorem size_modify (tape : Tape) (change : Int8 → Int8) :
    (tape.modify change).size = tape.size := by
  simp [modify, size]

/-- Setting cells to zero keeps the length. -/
theorem size_zero (cells : Array Int8) (start count : Nat) :
    (zero cells start count).size = cells.size := by
  induction count with
  | zero => rfl
  | succ count ih => simp [zero, ih]

/-- Clearing a range keeps the length. -/
theorem size_clear (tape : Tape) (range : Dump.Range) : (tape.clear range).size = tape.size := by
  simp [clear, size, size_zero]

end Tape

end ScrewLang
