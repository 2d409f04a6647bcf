/-!
# Braces

The two braces that delimit a loop, with their glyphs and bytes.
Spec guidance: `SPEC_FULL.md` §4.1, component `validate`: `BraceKind`.
-/

namespace ScrewLang

/-- One end of a loop. -/
inductive Brace where
  | opening
  | closing
deriving DecidableEq, Repr

namespace Brace

/-- The character that writes a brace. -/
def glyph : Brace → Char
  | .opening => '\x7b'
  | .closing => '\x7d'

/-- The brace that a byte writes, if it writes one. -/
def ofByte? (b : UInt8) : Option Brace :=
  if b = 0x7B then some .opening else if b = 0x7D then some .closing else none

end Brace

end ScrewLang
