/-!
# Decimal numerals

Unsigned numerals below `2 ^ 64`: an optional `+` and then one or more ASCII digits. A numeral is
read from left to right and the first fault met is the one reported, so at any one character a
foreign symbol is reported before an overflow.
-/

namespace ScrewLang

namespace Numeral

/-- Why a text is not a numeral. -/
inductive Fault where
  | empty
  | invalidDigit
  | tooLarge
deriving DecidableEq, Repr

/-- The wording of a numeral fault. -/
def Fault.message : Fault → String
  | .empty => "cannot parse integer from empty string"
  | .invalidDigit => "invalid digit found in string"
  | .tooLarge => "number too large to fit in target type"

/-- Numerals denote numbers below this bound, the 64th power of two. -/
def bound : Nat := 0x10000000000000000

/-- The value of an ASCII digit. -/
def digit? (c : Char) : Option Nat :=
  if '0' ≤ c ∧ c ≤ '9' then some (c.toNat - '0'.toNat) else none

/-- Read digits on top of a value already read. -/
def digits : (value : Nat) → List Char → Except Fault Nat
  | value, [] => .ok value
  | value, c :: rest =>
    match digit? c with
    | none => .error .invalidDigit
    | some d => if value * 10 + d < bound then digits (value * 10 + d) rest else .error .tooLarge

/-- The number that a numeral denotes. -/
def parse : List Char → Except Fault Nat
  | [] => .error .empty
  | ['+'] => .error .invalidDigit
  | '+' :: rest => digits 0 rest
  | text => digits 0 text

/-- The number that a numeral denotes, or `none` for any other text. -/
def parse? (text : List Char) : Option Nat :=
  (parse text).toOption

end Numeral

end ScrewLang
