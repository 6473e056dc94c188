import StoryScript.Number.Integer
import StoryScript.Text.Bytes
import StoryScript.Text.Quoted

/-!
# Faults

What breaks off the work on files. Unlike a finding in a script or an error in a configuration, a
fault leaves nothing to report on.
-/

namespace StoryScript

/-- What breaks off a work. -/
inductive Fault where
  /-- A file is no well-formed text. -/
  | undecodable (error : Text.DecodingError)
  /-- A whole number in a file has so many digits that it is not read. -/
  | integerTooLong (digits : Nat)
  /-- A whole number has so many digits that it is not written. -/
  | integerUnwritable
  /-- A path has the character NUL in it. -/
  | nullInPath
  /-- A path, or a name in it, is longer than a file system takes. -/
  | pathTooLong (path : String)
  deriving DecidableEq, Repr

namespace Fault

/-- What is said of a whole number with too many digits. -/
def digitLimit : String :=
  "Exceeds the limit (" ++ toString Integer.maxDigits ++ " digits) for integer string conversion"

/-- How a limit can be raised. -/
def limitAdvice : String := "; use sys.set_int_max_str_digits() to increase the limit"

end Fault

/-- The wording of a fault. -/
def Fault.message : Fault → String
  | undecodable error => error.message
  | integerTooLong digits =>
    digitLimit ++ ": value has " ++ toString digits ++ " digits" ++ limitAdvice
  | integerUnwritable => digitLimit ++ limitAdvice
  | nullInPath => "embedded null byte"
  | pathTooLong path => "[Errno 36] File name too long: " ++ Text.quoted path

end StoryScript
