import ScrewLang.Device.Fault
import ScrewLang.Program.Dump

/-!
# Faults of a running program

What stops a program before its end. Most faults name the instruction that could not be executed; a
run cut short from outside has none.
Spec guidance: `SPEC_FULL.md` §7 and §12, component `machine`: `MachineError`.
-/

namespace ScrewLang

namespace Machine

/-- Why a run stopped before the end of the program. -/
inductive Fault where
  | cursorOutOfBounds (place cursor : Nat) (symbol : Symbol)
  | unknownSymbol (place : Nat) (symbol : Symbol)
  | dump (place : Nat) (cause : Dump.Fault)
  | unmatchedBrace (place : Nat)
  | device (place : Nat) (cause : Device.Fault)
  | stepLimit (limit : Nat)
  | canceled
deriving DecidableEq, Repr

namespace Fault

/-- The index of the instruction that could not be executed. -/
def place? : Fault → Option Nat
  | .cursorOutOfBounds place _ _ => some place
  | .unknownSymbol place _ => some place
  | .dump place _ => some place
  | .unmatchedBrace place => some place
  | .device place _ => some place
  | .stepLimit _ => none
  | .canceled => none

/-- The wording of a fault. -/
def message : Fault → String
  | .cursorOutOfBounds place cursor symbol =>
    "Pointer out of bounds at instruction " ++ Nat.repr place ++ " (ptr=" ++ Nat.repr cursor ++
      ", op='" ++ symbol.glyph.toString ++ "')"
  | .unknownSymbol place symbol =>
    "Unknown symbol '" ++ symbol.glyph.toString ++ "' found at instruction " ++ Nat.repr place
  | .dump place cause => "Invalid cell dump at instruction " ++ Nat.repr place ++ ": " ++ cause.message
  | .unmatchedBrace place => "Unmatched brace at instruction " ++ Nat.repr place
  | .device place cause => "I/O error at instruction " ++ Nat.repr place ++ ": " ++ cause.message
  | .stepLimit limit => "Execution aborted: step limit exceeded (" ++ Nat.repr limit ++ ")"
  | .canceled => "Execution aborted: cancelled"

end Fault

end Machine

end ScrewLang
