import ScrewLang.File.Source
import ScrewLang.Machine.Fault
import ScrewLang.Report.Window
import ScrewLang.Source.Validation

/-!
# Messages

What is printed when something goes wrong. A message may begin with the name of the program that
reports it.
Spec guidance: `SPEC_FULL.md` §7 and §12, component `cli_util`.
-/

namespace ScrewLang

namespace Report

/-- The first line of a message. -/
def headline (style : Style) (program? : Option String) (message : String) : String :=
  (program?.elim "" (· ++ ": ")) ++ style.error ++ " " ++ message

/-- The message for a file that cannot be loaded. Follows `print_source_error`. -/
def sourceFault (style : Style) (program? : Option String) (fault : SourceFile.Fault) : String :=
  headline style program? fault.message ++ "\n"

/-- The message for a text that is no program, with the line at fault. Follows
`print_validation_error`. -/
def validationFault (style : Style) (program? : Option String) (source : String)
    (fault : Validation.Fault) : String :=
  headline style program? fault.message ++ "\n" ++
    fault.location?.elim "" fun location =>
      lineContext style source.toList location.toPosition

/-- What a message says about a fault of a running program. -/
def runtimeMessage : Machine.Fault → String
  | .cursorOutOfBounds _ cursor symbol =>
    "Runtime error: cannot shift " ++ (if symbol = .left then "left" else "right") ++
      " anymore (ptr=" ++ Nat.repr cursor ++ ", op='" ++ symbol.glyph.toString ++ "')"
  | .unknownSymbol _ symbol => "Runtime error: unknown symbol '" ++ symbol.glyph.toString ++ "'"
  | .dump _ cause => "Runtime error: invalid cell dump: " ++ cause.message
  | .unmatchedBrace _ => "Runtime error: unmatched brace"
  | .device _ cause => "I/O error: " ++ cause.message
  | fault => fault.message

/-- The message for a fault of a running program, with the instruction at fault. Follows
`print_machine_error`. -/
def machineFault (style : Style) (program? : Option String) (code : Program)
    (fault : Machine.Fault) : String :=
  match fault.place? with
  | some place =>
    instructionContext style (headline style program? (runtimeMessage fault)) code.glyphs place
  | none => runtimeMessage fault ++ "\n"

end Report

end ScrewLang
