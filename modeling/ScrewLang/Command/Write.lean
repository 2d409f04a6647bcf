import ScrewLang.Command.Run
import ScrewLang.Generator

/-!
# Generating programs

The input is given on the command line, in a file or on standard input. Unless raw bytes are asked
for, a file and standard input have to hold well-formed text.
Spec guidance: `SPEC_FULL.md` §15 and §17, component `commands`.
-/

namespace ScrewLang

namespace Command

/-- The input, which has to be well-formed text unless it is taken as raw bytes. -/
def textual (raw : Bool) (content : List UInt8) : Except Device.Fault (List UInt8) :=
  if raw ∨ (Text.decode? content).isSome then .ok content else .error .invalidUtf8

/-- The bytes to generate a program for, or a message. -/
def writeInput (world : World) (request : WriteRequest) : Except String (List UInt8) :=
  match request.file, request.texts with
  | some path, _ =>
    match (world.read path).bind (textual request.bytes) with
    | .ok content => .ok content
    | .error cause =>
      .error
        ((if request.bytes then "failed to read file: "
          else "failed to read file as UTF-8 (use --bytes for binary): ") ++ cause.message)
  | none, [] =>
    match world.input.content.bind (textual request.bytes) with
    | .ok content => .ok content
    | .error cause =>
      .error
        ((if request.bytes then "failed reading stdin: "
          else "failed reading UTF-8 from stdin (use --bytes for binary): ") ++ cause.message)
  | none, texts => .ok (Text.bytes (" ".intercalate texts))

/-- Generate a program and print it. -/
def write (world : World) (request : WriteRequest) : Exit :=
  if request.file.isSome ∧ request.texts ≠ [] then
    ⟨Exit.badUsage, [],
      world.program ++ ": cannot use positional TEXT together with --file\n" ++
        Usage.write world.program⟩
  else
    match writeInput world request with
    | .error message => ⟨Exit.badSource, [], world.program ++ ": " ++ message ++ "\n"⟩
    | .ok input =>
      let options := { Generator.Options.default with loops := !request.plain }
      ⟨Exit.success,
        delivered world (Text.bytes ((Generator.program options input).text ++ "\n")), ""⟩

end Command

end ScrewLang
