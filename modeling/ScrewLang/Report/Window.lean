import ScrewLang.Settings.Basic
import ScrewLang.Text.Slice

/-!
# Text with a caret

A message shows the place it speaks of: a piece of text around it, and a caret below.
Spec guidance: `SPEC_FULL.md` §12, component `cli_util`.
-/

namespace ScrewLang

namespace Report

/-- Whether messages are coloured, and how. -/
structure Style where
  colored : Bool
  palette : Palette
deriving DecidableEq, Repr

namespace Style

/-- Messages without colours. -/
def plain : Style := ⟨false, Palette.default⟩

/-- A caret in a style. -/
def caret (style : Style) : String :=
  style.palette.caret.paint style.colored "^"

/-- The label of an error in a style. -/
def error (style : Style) : String :=
  style.palette.error.paint style.colored "Error:"

/-- A label of a hint in a style. -/
def hint (style : Style) (label : String) : String :=
  style.palette.hint.paint style.colored label

end Style

/-- How many characters are shown on either side of the place. -/
def reach : Nat := 32

/-- The characters at most `reach` away from a place, as a part of the text between two byte offsets.
The place may lie behind the text. -/
def surroundings? (text : List Char) (place : Nat) : Option (List Char) :=
  let first := place - reach
  let last := min (place + reach + 1) text.length
  Text.slice? text (Text.byteOffset text first) (Text.byteOffset text last)

/-- There is such a part of every text for every place. -/
theorem surroundings?_eq (text : List Char) (place : Nat) :
    surroundings? text place = some ((text.take (place + reach + 1)).drop (place - reach)) := by
  rw [surroundings?, Text.slice?_byteOffset text (by omega), ← List.take_eq_take_min]

/-- The characters at most `reach` away from a place. -/
def surroundings (text : List Char) (place : Nat) : List Char :=
  (surroundings? text place).get (by rw [surroundings?_eq]; rfl)

theorem surroundings_eq (text : List Char) (place : Nat) :
    surroundings text place = (text.take (place + reach + 1)).drop (place - reach) := by
  simp only [surroundings, surroundings?_eq, Option.get_some]

/-- The text around a place and a caret below that place. Follows `render_window`. -/
def window (style : Style) (text : List Char) (place : Nat) : String :=
  "  " ++ String.ofList (surroundings text place) ++ "\n  " ++
    String.ofList (List.replicate (min place reach) ' ') ++ style.caret ++ "\n"

/-- A message about an instruction, with the program around it. Follows
`render_error_with_context`. -/
def instructionContext (style : Style) (headline : String) (program : List Char) (place : Nat) :
    String :=
  headline ++ " at instruction " ++ Nat.repr place ++ "\n" ++ window style program place

/-- The line of a text that holds a position, with a caret below its column. Follows
`render_line_context`. -/
def lineContext (style : Style) (source : List Char) (position : Position) : String :=
  "  --> line " ++ Nat.repr position.line ++ ", column " ++ Nat.repr position.column ++ "\n" ++
    window style ((Text.lines source).getD (position.line - 1) []) (position.column - 1)

end Report

end ScrewLang
