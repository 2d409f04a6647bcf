import ScrewLang.Program.Basic

/-!
# Cell dumps

A cell dump is written `*L^U` with two single digits. It names the cells from `L` to `U`, which have
to lie on the tape in this order. Its operands are read from the program when it is executed, and the
conditions are tested from left to right.
Spec guidance: `SPEC_FULL.md` §4.3, §11 and §12, component `machine`: `DumpError`.
-/

namespace ScrewLang

namespace Dump

/-- Why a cell dump cannot be executed. A symbol found in place of another is `none` where the
program ended. -/
inductive Fault where
  | missingLower (found : Option Symbol)
  | multiDigitLower
  | missingSeparator (found : Option Symbol)
  | missingUpper (found : Option Symbol)
  | multiDigitUpper
  | inverted (lower upper : Nat)
  | outOfRange (upper cells : Nat)
deriving DecidableEq, Repr

/-- The character found in the place of a symbol. -/
def foundGlyph (found : Option Symbol) : Char :=
  (found.map Symbol.glyph).getD Program.endGlyph

/-- The wording of a fault. -/
def Fault.message : Fault → String
  | .missingLower found =>
    "expected a digit for the lower bound, found '" ++ (foundGlyph found).toString ++ "'"
  | .multiDigitLower => "lower bound must be a single digit"
  | .missingSeparator found =>
    "expected '^' after the lower bound, found '" ++ (foundGlyph found).toString ++ "'"
  | .missingUpper found =>
    "expected a digit for the upper bound, found '" ++ (foundGlyph found).toString ++ "'"
  | .multiDigitUpper => "upper bound must be a single digit"
  | .inverted lower upper =>
    "lower bound " ++ Nat.repr lower ++ " is greater than upper bound " ++ Nat.repr upper
  | .outOfRange upper cells =>
    "upper bound " ++ Nat.repr upper ++ " is outside a tape of " ++ Nat.repr cells ++ " cells"

/-- The cells that a dump names, both ends included. -/
structure Range where
  lower : Nat
  upper : Nat
deriving DecidableEq, Repr

/-- How many symbols a dump takes. -/
def width : Nat := 4

/-- The digit at a place, if a digit stands there. -/
def digitAt? (symbols : Array Symbol) (place : Nat) : Option Nat :=
  symbols[place]?.bind Symbol.digit?

/-- Read the dump whose `*` stands at `place`, for a tape of `cells` cells. Follows `parse_dump`. -/
def parse (symbols : Array Symbol) (place cells : Nat) : Except Fault Range :=
  match digitAt? symbols (place + 1) with
  | none => .error (.missingLower symbols[place + 1]?)
  | some lower =>
    if (digitAt? symbols (place + 2)).isSome then .error .multiDigitLower
    else if symbols[place + 2]? ≠ some .caret then .error (.missingSeparator symbols[place + 2]?)
    else
      match digitAt? symbols (place + 3) with
      | none => .error (.missingUpper symbols[place + 3]?)
      | some upper =>
        if (digitAt? symbols (place + 4)).isSome then .error .multiDigitUpper
        else if upper < lower then .error (.inverted lower upper)
        else if cells ≤ upper then .error (.outOfRange upper cells)
        else .ok ⟨lower, upper⟩

/-- A dump that can be executed names cells in order and on the tape. -/
theorem parse_bounds {symbols : Array Symbol} {place cells : Nat} {range : Range}
    (h : parse symbols place cells = .ok range) :
    range.lower ≤ range.upper ∧ range.upper < cells := by
  unfold parse at h
  split at h
  · simp at h
  · split at h
    · simp at h
    · split at h
      · simp at h
      · split at h
        · simp at h
        · split at h
          · simp at h
          · split at h
            · simp at h
            · split at h
              · simp at h
              · injection h with h
                subst h
                constructor <;> simp only <;> omega

end Dump

end ScrewLang
