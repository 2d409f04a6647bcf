import ScrewLang.Command.Run
import ScrewLang.Repl.Mode
import ScrewLang.Repl.Session

/-!
# Starting a session

The session is held at the terminal, or takes all of standard input as one submission. Once begun it
ends well, by an interrupt too.
Spec guidance: `SPEC_FULL.md` §15 and §18, component `commands`.
-/

namespace ScrewLang

namespace Command

/-- Whether the session ends after its first submission. -/
def endsAfterOne (world : World) : Bool :=
  world.environment "SCREW_REPL_ONCE" = some "1"

/-- The mode of the session. -/
def sessionMode (world : World) (flag : Option Repl.Mode) : Except Repl.Mode.Fault Repl.Mode :=
  Repl.Mode.select flag (world.environment "SCREW_REPL_MODE") world.input.isTerminal

/-- Hold a session. -/
def repl (world : World) (flag : Option Repl.Mode) : Exit :=
  match sessionMode world flag with
  | .error fault => ⟨Exit.badSource, [], world.program ++ ": " ++ fault.message ++ "\n"⟩
  | .ok mode =>
    let printed :=
      match mode with
      | .editor =>
        Repl.session world.patience world.style world.settings (endsAfterOne world)
          { world.console with input := [] } world.input.submissions
      | .bare =>
        Repl.bare world.patience world.style world.settings { world.console with input := [] }
          (world.input.content.toOption.getD [])
    ⟨Exit.success, delivered world printed.1, printed.2⟩

end Command

end ScrewLang
