import ScrewLang.Source.Brace

/-!
# The instruction alphabet

Every symbol of a program stands for one byte of its text. The digits and `^` have a meaning only
inside a cell dump. The terminator is no symbol: it is where the sequence of symbols ends.
Spec guidance: `SPEC_FULL.md` §3 and §4.2, component `lexer`: `is_instruction`.
-/

namespace ScrewLang

/-- A symbol of a program. -/
inductive Symbol where
  | right
  | left
  | increment
  | decrement
  | output
  | input
  | brace (side : Brace)
  | star
  | caret
  | digit (value : Fin 10)
deriving DecidableEq, Repr

namespace Symbol

/-- The character that writes a symbol. -/
def glyph : Symbol → Char
  | .right => '>'
  | .left => '<'
  | .increment => '+'
  | .decrement => '-'
  | .output => '.'
  | .input => '?'
  | .brace side => side.glyph
  | .star => '*'
  | .caret => '^'
  | .digit value => Char.ofNat (0x30 + value.val)

/-- The symbol that a byte writes, if it belongs to the alphabet. -/
def ofByte? (b : UInt8) : Option Symbol :=
  match b with
  | 0x3E => some .right
  | 0x3C => some .left
  | 0x2B => some .increment
  | 0x2D => some .decrement
  | 0x2E => some .output
  | 0x3F => some .input
  | 0x7B => some (.brace .opening)
  | 0x7D => some (.brace .closing)
  | 0x2A => some .star
  | 0x5E => some .caret
  | _ => if h : 0x30 ≤ b.toNat ∧ b.toNat < 0x3A then some (.digit ⟨b.toNat - 0x30, by omega⟩) else none

/-- The byte that writes a symbol. -/
def toByte (symbol : Symbol) : UInt8 :=
  UInt8.ofNat symbol.glyph.toNat

/-- The brace that a symbol is, if it is one. -/
def brace? : Symbol → Option Brace
  | .brace side => some side
  | _ => none

/-- The value of a digit. -/
def digit? : Symbol → Option Nat
  | .digit value => some value.val
  | _ => none

/-- Writing a symbol and reading it back gives the symbol. -/
theorem ofByte?_toByte (symbol : Symbol) : ofByte? symbol.toByte = some symbol := by
  cases symbol with
  | brace side => cases side <;> rfl
  | digit value => revert value; decide
  | _ => rfl

private theorem ofByte?_table : ∀ i : Fin 256,
    (ofByte? (UInt8.ofNat i.val)).all (fun s => s.toByte == UInt8.ofNat i.val) = true := by
  decide +kernel

/-- Only the byte that writes a symbol reads as that symbol. -/
theorem toByte_of_ofByte? {b : UInt8} {symbol : Symbol} (h : ofByte? b = some symbol) :
    symbol.toByte = b := by
  have table := ofByte?_table ⟨b.toNat, b.toNat_lt⟩
  rw [UInt8.ofNat_toNat, h] at table
  simpa using table

end Symbol

end ScrewLang
