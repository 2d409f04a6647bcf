import ScrewLang.Command.Basic

/-!
# The program

Gathers what a command can observe, lets it do its work, and prints the outcome.
-/

namespace ScrewLang

namespace Main

/-- The variables that a command may ask for. -/
def observed : List String :=
  ["SCREW_CONFIG", "XDG_CONFIG_HOME", "HOME", "SCREW_MAX_STEPS", "SCREW_TIMEOUT_MS",
    "SCREW_REPL_MODE", "SCREW_REPL_ONCE"]

/-- The device fault that a system error stands for. -/
def faultOf (error : IO.Error) : Device.Fault :=
  match error with
  | .noFileOrDirectory _ _ _ => .noSuchFile
  | .inappropriateType _ 20 _ => .notADirectory
  | .inappropriateType _ 21 _ => .isADirectory
  | .invalidArgument _ 36 _ => .nameTooLong
  | other => .other (toString other)

/-- The bytes at a path. -/
def readFile (path : String) : IO (Except Device.Fault (List UInt8)) := do
  try
    let content ← IO.FS.readBinFile path
    return .ok content.toList
  catch error => return .error (faultOf error)

/-- The bytes of a stream up to its end. -/
partial def drain (stream : IO.FS.Stream) (sofar : ByteArray) : IO ByteArray := do
  let next ← stream.read 65536
  if next.isEmpty then return sofar else drain stream (sofar ++ next)

/-- The bytes of standard input up to its end. -/
def readInput : IO Input := do
  try
    let content ← drain (← IO.getStdin) ByteArray.empty
    return .stream content.toList
  catch error => return .broken (faultOf error)

/-- Print what a command has to say. -/
def print (stdout : List UInt8) (stderr : String) : IO Unit := do
  let output ← IO.getStdout
  output.write ⟨stdout.toArray⟩
  output.flush
  IO.eprint stderr

/-- Hold a session at the terminal. A submission ends where the input pauses at its end, and the
session ends with an empty one. -/
partial def converse (world : World) : IO Unit := do
  let content ← drain (← IO.getStdin) ByteArray.empty
  match Text.decode? content.toList with
  | none => converse world
  | some submission =>
    if submission.isEmpty then print [newline] ""
    else if Submission.isBlank submission then converse world
    else do
      let reply := Repl.execute world.patience world.style world.settings world.console submission
      print reply.stdout reply.stderr
      unless Command.endsAfterOne world do converse world

/-- Do what a request asks for. -/
def serve (world : World) (terminal : Bool) (invocation : Invocation) : IO UInt32 := do
  let waiting := { world with input := if terminal then .terminal [] else .stream [] }
  let editing : Bool :=
    match invocation with
    | .repl flag => (Command.sessionMode waiting flag).toOption == some .editor
    | _ => false
  if editing then
    converse waiting
    return 0
  else
    let input ← if Command.readsInput waiting invocation then readInput else pure waiting.input
    let exit := Command.perform { waiting with input := input } invocation
    print exit.stdout exit.stderr
    return exit.code.toUInt32

/-- What a command can observe, as far as it is known before the command line is read. -/
def world : IO World := do
  let values ← observed.mapM fun name => return (name, ← IO.getEnv name)
  let colored := (← (← IO.getStderr).isTty) && (← IO.getEnv "NO_COLOR").isNone
  let bare : World :=
    { program := "screw"
      read := fun _ => .error .noSuchFile
      environment := fun name => (values.lookup name).join
      input := .stream []
      outputFault := none
      colored := colored
      patience := 0x4000000000000000 }
  return bare

/-- A world in which some files can be read. -/
def withFiles (world : World) (paths : List String) : IO World := do
  let files ← paths.mapM fun path => return (path, ← readFile path)
  return { world with read := fun path => (files.lookup path).getD (.error .noSuchFile) }

end Main

end ScrewLang

open ScrewLang in
/-- Run the interpreter's command line. -/
def main (arguments : List String) : IO UInt32 := do
  let world ← Main.world
  match Invocation.parse arguments with
  | .error fault =>
    let world ← Main.withFiles world world.settingsPath?.toList
    let exit := Command.faultExit world fault
    Main.print exit.stdout exit.stderr
    return exit.code.toUInt32
  | .ok invocation =>
    let paths := world.settingsPath?.toList ++ (Command.subject? invocation).toList
    let world ← Main.withFiles world paths
    Main.serve world (← (← IO.getStdin).isTty) invocation
