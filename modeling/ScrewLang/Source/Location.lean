import ScrewLang.Text.Utf8

/-!
# Places in a source text

A location names a byte of a text by its offset and, for people, by line and column. Lines and
columns count from one. A column counts characters: a continuation byte does not advance it.
Spec guidance: `SPEC_FULL.md` §12, component `scan`: `Location`.
-/

namespace ScrewLang

/-- The byte that ends a line. -/
def newline : UInt8 := 0x0A

/-- A line and a column of a text, both counted from one. -/
structure Position where
  line : Nat
  column : Nat
deriving DecidableEq, Repr

namespace Position

/-- Where a text begins. -/
def start : Position := ⟨1, 1⟩

/-- The position after one more byte. -/
def advance (p : Position) (b : UInt8) : Position :=
  if b = newline then ⟨p.line + 1, 1⟩
  else if Text.isContinuation b then p
  else ⟨p.line, p.column + 1⟩

end Position

/-- A byte of a text: how many bytes stand before it, and its position. -/
structure Location extends Position where
  offset : Nat
deriving DecidableEq, Repr

namespace Location

/-- Where a text begins. -/
def start : Location := { Position.start with offset := 0 }

/-- The location after one more byte. -/
def advance (location : Location) (b : UInt8) : Location :=
  { location.toPosition.advance b with offset := location.offset + 1 }

/-- The location with a given offset in a text. An offset past the end is kept as it is, with the
position of the end. -/
def ofOffset (source : List UInt8) (offset : Nat) : Location :=
  { (source.take offset).foldl Position.advance Position.start with offset := offset }

/-- How a location is shown. -/
def describe (location : Location) : String :=
  "line " ++ Nat.repr location.line ++ ", column " ++ Nat.repr location.column

end Location

end ScrewLang
