import ScrewLang.Device.Fault
import ScrewLang.File.Name
import ScrewLang.Text.Utf8

/-!
# Source files

A source file has a name of at least five characters that ends in `.scw`. Its bytes are decoded
leniently: a broken piece cannot be an instruction anyway.
Spec guidance: `SPEC_FULL.md` §6 and §15, component `source`: `SourceError`.
-/

namespace ScrewLang

namespace SourceFile

/-- Why a source file cannot be loaded. -/
inductive Fault where
  | invalidName (path : String)
  | unsupportedExtension (path : String)
  | notFound (path : String)
  | unreadable (path : String) (cause : Device.Fault)
deriving DecidableEq, Repr

/-- The wording of a fault. -/
def Fault.message : Fault → String
  | .invalidName path => "Invalid filename '" ++ path ++ "'"
  | .unsupportedExtension _ =>
    "This type of file is not supported. Please use a screw (.scw) file!"
  | .notFound path => path ++ " doesn't exist!"
  | .unreadable path cause => "failed to read " ++ path ++ ": " ++ cause.message

/-- The ending of the name of a source file. -/
def extension : List Char := ['.', 's', 'c', 'w']

/-- Check the name of a source file. Follows `check_file_name`. -/
def checkName (path : String) : Except Fault Unit :=
  match File.baseName? path with
  | none => .error (.invalidName path)
  | some name =>
    if name.length ≤ extension.length then .error (.invalidName path)
    else if extension.isSuffixOf name then .ok ()
    else .error (.unsupportedExtension path)

/-- The text of a source file, given the outcome of reading the bytes at any path. Follows
`read_source`. -/
def load (read : String → Except Device.Fault (List UInt8)) (path : String) :
    Except Fault String := do
  checkName path
  match read path with
  | .ok content => .ok (Text.decodeLossy content)
  | .error .noSuchFile => .error (.notFound path)
  | .error cause => .error (.unreadable path cause)

end SourceFile

end ScrewLang
