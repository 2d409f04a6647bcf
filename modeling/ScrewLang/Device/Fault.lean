/-!
# Failing devices

The ways in which reading or writing a file or a stream fails, with the wording that the operating
system gives them.
-/

namespace ScrewLang

namespace Device

/-- Why a device refused to read or write. -/
inductive Fault where
  | noSuchFile
  | notADirectory
  | isADirectory
  | noSpace
  | nameTooLong
  | nulInName
  | invalidUtf8
  /-- The device is held by the one who asks for it. -/
  | deadlock
  | other (message : String)
deriving DecidableEq, Repr

/-- The wording of a fault. -/
def Fault.message : Fault → String
  | .noSuchFile => "No such file or directory (os error 2)"
  | .notADirectory => "Not a directory (os error 20)"
  | .isADirectory => "Is a directory (os error 21)"
  | .noSpace => "No space left on device (os error 28)"
  | .nameTooLong => "File name too long (os error 36)"
  | .nulInName => "file name contained an unexpected NUL byte"
  | .invalidUtf8 => "stream did not contain valid UTF-8"
  | .deadlock => "Resource deadlock avoided (os error 35)"
  | .other message => message

end Device

end ScrewLang
