import ScrewLang.Machine.EofPolicy
import ScrewLang.Machine.Tape
import ScrewLang.Settings.Color
import ScrewLang.Settings.Entries
import ScrewLang.Settings.Limit

/-!
# Settings

How programs are run and messages are coloured. A settings file may change any of it; a value that
makes no sense is passed over, and the default stays.
Spec guidance: `SPEC_FULL.md` §14, component `config`: `Settings`, `Colors`.
-/

namespace ScrewLang

/-- The colours of messages. -/
structure Palette where
  error : Color
  hint : Color
  caret : Color
deriving DecidableEq, Repr

namespace Palette

/-- Errors in red, hints in yellow. -/
def default : Palette := ⟨.red, .yellow, .lightRed⟩

end Palette

/-- What a settings file decides. -/
structure Settings where
  /-- The length of the tape. -/
  cells : Nat
  eof : EofPolicy
  /-- The step limit. -/
  maxSteps : Option Nat
  /-- The time limit in milliseconds. -/
  timeout : Option Nat
  palette : Palette
deriving DecidableEq, Repr

namespace Settings

/-- The settings without a settings file. -/
def default : Settings :=
  ⟨Tape.defaultSize, EofPolicy.default, none, none, Palette.default⟩

/-- The tape length that a value stands for. A tape has at least one cell. -/
def cells? (value : String) : Option Nat :=
  (Numeral.parse? (Limit.ungroup value.toList)).filter (0 < ·)

/-- What an entry stands for, or a default if there is no such entry or it makes no sense. -/
def lookup {α : Type} (entries : Entries) (heading key : String) (parse? : String → Option α)
    (otherwise : α) : α :=
  ((entries.get? heading key).bind parse?).getD otherwise

/-- The settings that some entries decide. -/
def ofEntries (entries : Entries) : Settings where
  cells := lookup entries "interpreter" "cells" cells? default.cells
  eof := lookup entries "interpreter" "eof" EofPolicy.ofName? default.eof
  maxSteps := lookup entries "interpreter" "max_steps" Limit.parse? default.maxSteps
  timeout := lookup entries "interpreter" "timeout_ms" Limit.parse? default.timeout
  palette :=
    { error := lookup entries "colors" "error" Color.parse? default.palette.error
      hint := lookup entries "colors" "hint" Color.parse? default.palette.hint
      caret := lookup entries "colors" "caret" Color.parse? default.palette.caret }

/-- The settings that the text of a settings file decides. Follows `parse_settings`. -/
def parse (text : String) : Settings :=
  ofEntries (Entries.parse text)

end Settings

end ScrewLang
