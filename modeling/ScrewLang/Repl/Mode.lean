import ScrewLang.Text.Blank

/-!
# Ways to start a session

A session is held in an editor, or takes its whole input as one submission. A flag decides, else the
environment, else whether the input is a terminal. The editor needs a terminal.
Spec guidance: `SPEC_FULL.md` §18, component `repl`.
-/

namespace ScrewLang

namespace Repl

/-- How a session gets its submissions. -/
inductive Mode where
  | bare
  | editor
deriving DecidableEq, Repr

namespace Mode

/-- Who asked for the editor. -/
inductive Origin where
  | flag
  | environment
deriving DecidableEq, Repr

/-- Why no session can be started. -/
inductive Fault where
  | noTerminal (origin : Origin)
  | invalidValue (value : String)
deriving DecidableEq, Repr

/-- The wording of a fault. -/
def Fault.message : Fault → String
  | .noTerminal .flag =>
    "cannot start editor: stdin is not a TTY (use --bare or SCREW_REPL_MODE=bare)"
  | .noTerminal .environment =>
    "cannot start editor: stdin is not a TTY (use SCREW_REPL_MODE=bare)"
  | .invalidValue value =>
    "invalid SCREW_REPL_MODE value: " ++ value ++ ", must be 'bare' or 'editor'"

/-- A mode that somebody asked for, if it can be had. -/
def request (mode : Mode) (origin : Origin) (terminal : Bool) : Except Fault Mode :=
  if mode = .editor ∧ terminal = false then .error (.noTerminal origin) else .ok mode

/-- The mode of a session. Follows `select_mode`. -/
def select (flag : Option Mode) (inherited : Option String) (terminal : Bool) :
    Except Fault Mode :=
  match flag with
  | some mode => request mode .flag terminal
  | none =>
    match inherited with
    | some value =>
      match Text.fold value.toList with
      | "bare" => request .bare .environment terminal
      | "editor" => request .editor .environment terminal
      | _ => .error (.invalidValue value)
    | none => .ok (if terminal then .editor else .bare)

end Mode

end Repl

end ScrewLang
