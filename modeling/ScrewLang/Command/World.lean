import ScrewLang.Device.Console
import ScrewLang.Report.Window

/-!
# The surroundings of a command

What a command can observe: files, environment variables and its standard streams. A command is a
function of these, so what it prints can be reasoned about.
Spec guidance: `SPEC_FULL.md` §12 and §14, component `config`.
-/

namespace ScrewLang

/-- Where standard input comes from. -/
inductive Input where
  | stream (content : List UInt8)
  | broken (fault : Device.Fault)
  | terminal (submissions : List String)

namespace Input

/-- Whether the input is a terminal. -/
def isTerminal : Input → Bool
  | .terminal _ => true
  | _ => false

/-- All bytes of the input, if it can be read. -/
def content : Input → Except Device.Fault (List UInt8)
  | .stream content => .ok content
  | .broken fault => .error fault
  | .terminal submissions => .ok (submissions.flatMap Text.bytes)

/-- The submissions made at a terminal. -/
def submissions : Input → List String
  | .terminal submissions => submissions
  | _ => []

end Input

/-- Everything that a command can observe. -/
structure World where
  /-- The name under which the program was started. -/
  program : String
  /-- The outcome of reading the bytes at a path. -/
  read : String → Except Device.Fault (List UInt8)
  /-- The value of an environment variable. -/
  environment : String → Option String
  input : Input
  /-- The answer of a broken standard output. -/
  outputFault : Option Device.Fault
  /-- Whether messages go to a terminal that shows colours. -/
  colored : Bool
  /-- The rounds that a run without a time limit gets. -/
  patience : Nat
  /-- The rounds of a run that pass in a millisecond. The clock of a run counts rounds, so that a
  run is a function of what it can observe. -/
  pace : Nat := 10000

namespace World

/-- A path in a directory. The empty path stands for the working directory. -/
def join (directory name : String) : String :=
  if directory.isEmpty ∨ directory.toList.getLast? = some '/' then directory ++ name
  else directory ++ "/" ++ name

/-- The name of the settings file. -/
def settingsName : String := "screw.toml"

/-- Where the settings file is: as the environment says, else in the user's configuration directory.
An empty name means that there is none. Follows `config_path`. -/
def settingsPath? (world : World) : Option String :=
  match world.environment "SCREW_CONFIG" with
  | some path => if path.isEmpty then none else some path
  | none =>
    match world.environment "XDG_CONFIG_HOME" with
    | some directory => some (join directory settingsName)
    | none => (world.environment "HOME").map fun home => join (join home ".config") settingsName

/-- The settings in force. A settings file that cannot be read or decoded does not count. Follows
`load_from_toml`. -/
def settings (world : World) : Settings :=
  match world.settingsPath? with
  | none => .default
  | some path =>
    match world.read path with
    | .error _ => .default
    | .ok content => (Text.decode? content).elim .default Settings.parse

/-- The style of messages. -/
def style (world : World) : Report.Style :=
  ⟨world.colored, world.settings.palette⟩

/-- The console on which a program runs. -/
def console (world : World) : Console :=
  match world.input.content with
  | .ok content => ⟨content, #[], none, world.outputFault, 0⟩
  | .error fault => ⟨[], #[], some fault, world.outputFault, 0⟩

end World

/-- How a command ends: its exit status and what it has printed. -/
structure Exit where
  code : UInt8
  stdout : List UInt8
  stderr : String
deriving DecidableEq, Repr

namespace Exit

/-- Everything went well. -/
def success : UInt8 := 0

/-- The program could not be loaded, or is invalid. -/
def badSource : UInt8 := 1

/-- The command line makes no sense. -/
def badUsage : UInt8 := 2

/-- The program failed or was cut short. -/
def badRun : UInt8 := 3

end Exit

end ScrewLang
