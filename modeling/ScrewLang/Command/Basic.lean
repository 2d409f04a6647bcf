import ScrewLang.Command.Repl
import ScrewLang.Command.Write

/-!
# The command line

What the interpreter does for a command line, as a function of its surroundings.
Spec guidance: `SPEC_FULL.md` §15, component `commands`.
-/

namespace ScrewLang

namespace Command

/-- The usage text of a command. -/
def usage (program : String) : Topic → String
  | .top => Usage.top program
  | .check => Usage.check program
  | .write => Usage.write program
  | .repl => Usage.repl program

/-- Do what is asked for. -/
def perform (world : World) : Invocation → Exit
  | .help topic => ⟨Exit.success, [], usage world.program topic⟩
  | .version none => ⟨Exit.success, delivered world (Text.bytes Usage.banner), ""⟩
  | .version (some _) => usageExit world
  | .run request => run world request
  | .check file => check world file
  | .write request => write world request
  | .repl flag => repl world flag

/-- The first line of a text. -/
def firstLine (text : String) : String :=
  String.ofList ((Text.lines text.toList).headD [])

/-- The end of a command line that cannot be read. -/
def faultExit (world : World) (fault : Arguments.Fault) : Exit :=
  ⟨Exit.badUsage, [],
    world.program ++ ": " ++ firstLine fault.message ++ "\n" ++
      Usage.hint world.style world.program⟩

/-- Read a command line and do what it asks for. -/
def dispatch (world : World) (arguments : List String) : Exit :=
  match Invocation.parse arguments with
  | .error fault => faultExit world fault
  | .ok invocation => perform world invocation

/-- The file that a request is about. -/
def subject? : Invocation → Option String
  | .run request => request.file
  | .check file => file
  | .write request => request.file
  | _ => none

/-- Whether a request reads standard input, given the files it is about. -/
def readsInput (world : World) : Invocation → Bool
  | .run request =>
    match request.file.map (load world) with
    | some (.ok program) => !request.debug && program.symbols.contains .input
    | _ => false
  | .write request => request.file.isNone && request.texts.isEmpty
  | .repl _ => true
  | _ => false

end Command

end ScrewLang
