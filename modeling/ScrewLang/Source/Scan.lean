import ScrewLang.Source.Location

/-!
# The code bytes of a source text

Code runs from the start of a text to its first `~`, less the comments: a `;` opens a comment and the
next newline closes it. A `~` ends the code inside a comment too. The scan is a small automaton with
one mode for each of the three regions; a byte is code when it leaves the automaton in code mode and
is not a newline.
Spec guidance: `SPEC_FULL.md` §4.2 and §10, component `scan`: `Scanner`.
-/

namespace ScrewLang

namespace Scan

/-- The byte that ends a program. -/
def terminator : UInt8 := 0x7E

/-- The byte that opens a comment. -/
def commentMark : UInt8 := 0x3B

/-- The region of a text that the scan is in. -/
inductive Mode where
  | code
  | comment
  | ended
deriving DecidableEq, Repr

/-- The region after one more byte. Nothing follows the end. -/
def Mode.next (mode : Mode) (b : UInt8) : Mode :=
  if mode = .ended ∨ b = terminator then .ended
  else if b = commentMark then .comment
  else if b = newline then .code
  else mode

/-- A byte of code, with its place and the mode of the scan after it. -/
structure Item where
  location : Location
  byte : UInt8
  mode : Mode
deriving DecidableEq, Repr

end Scan

/-- What a scan has found: the code bytes in order, and the place and mode it has come to. -/
structure Scan where
  items : List Scan.Item
  location : Location
  mode : Scan.Mode
deriving DecidableEq, Repr

namespace Scan

/-- Scan the bytes that follow a place reached in some mode. -/
def onward : Location → Mode → List UInt8 → Scan
  | location, mode, [] => ⟨[], location, mode⟩
  | location, mode, b :: rest =>
    let after := mode.next b
    let tail := onward (location.advance b) after rest
    if after = .code ∧ b ≠ newline then
      { tail with items := ⟨location, b, after⟩ :: tail.items }
    else tail

/-- Scan a source text from its start. -/
def ofSource (source : List UInt8) : Scan :=
  onward .start .code source

/-- Go on with the bytes that follow a scanned text. -/
def resume (scan : Scan) (more : List UInt8) : Scan :=
  onward scan.location scan.mode more

/-- Whether the scan met a `~`. -/
def terminated (scan : Scan) : Bool :=
  scan.mode = .ended

/-- Whether the text ended inside a comment. -/
def inComment (scan : Scan) : Bool :=
  scan.mode = .comment

/-- Once the end has been met no further byte is code. -/
theorem onward_ended (location : Location) (source : List UInt8) :
    (onward location .ended source).items = [] := by
  induction source generalizing location with
  | nil => rfl
  | cons b rest ih => simp [onward, Mode.next, ih]

end Scan

end ScrewLang
