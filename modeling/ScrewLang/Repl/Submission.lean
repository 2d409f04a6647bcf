import ScrewLang.Source.Location
import ScrewLang.Text.Blank
import ScrewLang.Text.Lines
import ScrewLang.Text.Utf8

/-!
# Submissions

The text handed to an interactive session. It is read line by line up to the end of the input, and may
leave its terminator out.
Spec guidance: `SPEC_FULL.md` §18, component `repl`.
-/

namespace ScrewLang

namespace Submission

/-- The texts of several byte strings put together, if every one of them is well formed. -/
def decodeLines : List (List UInt8) → Option (List Char)
  | [] => some []
  | line :: rest => do
    let first ← Text.decode? line
    let others ← decodeLines rest
    return first.toList ++ others

/-- The submission that an input holds: none if it is empty or one of its lines is not well formed.
Follows `read_submission`. -/
def ofInput? (input : List UInt8) : Option String :=
  match decodeLines (Text.pieces (· == newline) input) with
  | none => none
  | some [] => none
  | some text => some (String.ofList text)

/-- Whether a submission has nothing but blanks. -/
def isBlank (submission : String) : Bool :=
  (Text.trim submission.toList).isEmpty

/-- A submission with a terminator, on a line of its own if one had to be added. Follows
`ensure_terminated`. -/
def terminate (submission : String) : String :=
  if submission.toList.contains '~' then submission
  else String.ofList (Text.trimEnd submission.toList ++ ['\n', '~'])

end Submission

end ScrewLang
