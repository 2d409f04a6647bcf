import ScrewLang.Text.Blank
import ScrewLang.Text.Numeral

/-!
# Limits

A limit is a number, or none. Written down, zero means that there is none. A limit can be given on
the command line, in the environment and in the settings file, and the first place that gives one
decides.
Spec guidance: `SPEC_FULL.md` §14, components `config` and `commands`.
-/

namespace ScrewLang

namespace Limit

/-- The limit that a number stands for. -/
def ofNat (n : Nat) : Option Nat :=
  if n = 0 then none else some n

/-- A text without its underscores. -/
def ungroup (text : List Char) : List Char :=
  text.filter (· != '_')

/-- The limit that a settings value stands for, or `none` if it is no numeral. Underscores may group
its digits. Follows `parse_limit`. -/
def parse? (text : String) : Option (Option Nat) :=
  (Numeral.parse? (ungroup (Text.trim text.toList))).map ofNat

/-- The number given in the environment, if it is a numeral. -/
def ofVariable? (value : String) : Option Nat :=
  Numeral.parse? (Text.trim value.toList)

/-- The limit in force: from the command line, else from the environment, else from the settings.
Follows `pick_limit`. -/
def pick (flag : Option Nat) (inherited : Option String) (configured : Option Nat) : Option Nat :=
  match flag <|> inherited.bind ofVariable? with
  | some n => ofNat n
  | none => configured

end Limit

end ScrewLang
