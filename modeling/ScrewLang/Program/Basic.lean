import ScrewLang.Program.Jumps
import ScrewLang.Program.Symbol
import ScrewLang.Source.Validation

/-!
# Programs

A program is the sequence of symbols left of a source text when comments, everything from the
terminator on and all other characters are dropped. Its text form writes the symbols and then the
terminator.
Spec guidance: `SPEC_FULL.md` §3 and §4.2, component `lexer`: `InstructionSequence`.
-/

namespace ScrewLang

/-- A sequence of symbols. Execution ends where the sequence does. -/
structure Program where
  symbols : Array Symbol
deriving DecidableEq, Repr

namespace Program

/-- The symbols of a source text. Nothing is checked. Follows `lex`. -/
def ofSource (source : List UInt8) : Program :=
  ⟨((Scan.ofSource source).items.filterMap fun item => Symbol.ofByte? item.byte).toArray⟩

/-- The program of a source text that passes validation. Follows `compile`. -/
def compile (source : List UInt8) : Except Validation.Fault Program := do
  Validation.validate source
  return ofSource source

/-- How many symbols a program has. -/
def size (program : Program) : Nat :=
  program.symbols.size

/-- The character that shows the end of a program. -/
def endGlyph : Char := '~'

/-- The symbols of a program as characters, followed by the terminator. -/
def glyphs (program : Program) : List Char :=
  program.symbols.toList.map Symbol.glyph ++ [endGlyph]

/-- The text form of a program. -/
def text (program : Program) : String :=
  String.ofList program.glyphs

/-- The length of the text form. -/
def length (program : Program) : Nat :=
  program.size + 1

/-- The jump table of a program. -/
def jumps (program : Program) : Except Nat Jumps.Table :=
  Jumps.table (program.symbols.toList.map Symbol.brace?)

/-- The text form has one character for every symbol and one for the terminator. -/
theorem length_glyphs (program : Program) : program.glyphs.length = program.length := by
  simp [glyphs, length, size]

end Program

end ScrewLang
