import ScrewLang.Text.Blank

/-!
# End of input

What a read stores when no input is left.
Spec guidance: `SPEC_FULL.md` §11, component `machine`: `EofPolicy`.
-/

namespace ScrewLang

/-- What a read at the end of the input does to the current cell. -/
inductive EofPolicy where
  | zero
  | minusOne
  | unchanged
deriving DecidableEq, Repr

namespace EofPolicy

/-- The policy of a machine for which none is chosen. -/
def default : EofPolicy := .minusOne

/-- The names under which a policy can be chosen. -/
def ofName? (name : String) : Option EofPolicy :=
  match Text.fold name.toList with
  | "zero" => some .zero
  | "0" => some .zero
  | "minus-one" => some .minusOne
  | "minus_one" => some .minusOne
  | "-1" => some .minusOne
  | "unchanged" => some .unchanged
  | "keep" => some .unchanged
  | _ => none

/-- The name under which a policy is shown. -/
def name : EofPolicy → String
  | .zero => "zero"
  | .minusOne => "minus-one"
  | .unchanged => "unchanged"

/-- The value of a cell after a read at the end of the input. -/
def apply : EofPolicy → Int8 → Int8
  | .zero, _ => 0
  | .minusOne, _ => -1
  | .unchanged, cell => cell

end EofPolicy

end ScrewLang
