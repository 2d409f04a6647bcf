import ScrewLang.Machine.Action

/-!
# The trace of a rehearsal

A rehearsal prints a table with one row for every instruction carried out. A row shows the state just
before the instruction, and says what the instruction does.
Spec guidance: `SPEC_FULL.md` §16, component `machine`: what `run_debug` prints.
-/

namespace ScrewLang

namespace Machine

/-- One instruction of a rehearsal. -/
structure Row where
  /-- How many instructions were carried out before. -/
  step : Nat
  /-- The index of the instruction. -/
  place : Nat
  /-- The cursor before the instruction. -/
  cursor : Nat
  /-- The current cell before the instruction. -/
  cell : Int8
  symbol : Symbol
  /-- What the instruction does, in words. -/
  note : String
deriving DecidableEq, Repr

/-- A number as it is shown. -/
def showCell (cell : Int8) : String :=
  toString cell.toInt

/-- A list of bytes as it is shown. -/
def showBytes (output : List UInt8) : String :=
  "[" ++ ", ".intercalate (output.map fun b => Nat.repr b.toNat) ++ "]"

namespace Action

/-- What an action does in a rehearsal, in words. -/
def describe (action : Action) (eof : EofPolicy) (tape : Tape) : String :=
  match action with
  | .move target => "Moved pointer head to index " ++ Nat.repr target
  | .increment =>
    "Increment cell[" ++ Nat.repr tape.cursor ++ "] from " ++ showCell tape.get ++ " to " ++
      showCell (tape.get + 1)
  | .decrement =>
    "Decrement cell[" ++ Nat.repr tape.cursor ++ "] from " ++ showCell tape.get ++ " to " ++
      showCell (tape.get - 1)
  | .emit => "Output byte " ++ Nat.repr tape.get.toUInt8.toNat ++ " (suppressed in debug)"
  | .read =>
    "Read byte -> simulated EOF (" ++ eof.name ++ "), cell = " ++ showCell (eof.apply tape.get)
  | .skip partner => "Cell is 0; jump forward to matching '\x7d' at IP " ++ Nat.repr partner
  | .enter => "Enter loop (cell != 0)"
  | .loop partner => "Cell != 0; jump back to matching '\x7b' at IP " ++ Nat.repr partner
  | .leave => "Exit loop (cell is 0)"
  | .dump range =>
    "Dump cells[" ++ Nat.repr range.lower ++ "..=" ++ Nat.repr range.upper ++ "] = " ++
      showBytes (tape.bytes range) ++ " (suppressed in debug), then clear"

end Action

namespace Row

/-- A text filled up with blanks on the right. -/
def pad (width : Nat) (text : String) : String :=
  String.ofList (text.toList.rightpad width ' ')

/-- The line that shows a row. -/
def render (row : Row) : String :=
  " | ".intercalate
    [pad 4 (Nat.repr row.step), pad 3 (Nat.repr row.place), pad 3 (Nat.repr row.cursor),
      pad 4 (showCell row.cell), " " ++ row.symbol.glyph.toString ++ "   ", row.note]

/-- The lines above the rows. -/
def header : List String :=
  ["STEP | IP  | PTR | CELL | INSTR | ACTION",
    "-----+-----+-----+------+-------+------------------------------------------------"]

end Row

end Machine

end ScrewLang
