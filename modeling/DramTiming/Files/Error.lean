/-!
# File errors
-/

namespace DramTiming

/-- Why a file or directory could not be used. -/
inductive FileError where
  | notFound
  | alreadyExists
  | notDirectory
  | isDirectory
  | nameTooLong
  /-- The path has a character that no path can have. -/
  | nulInPath
  /-- The file was to be read as text, and its bytes are no text. -/
  | notText
  /-- Any other cause, in the words of the system. -/
  | other (message : String)
deriving DecidableEq, Repr

/-- The wording of a `FileError`. -/
def FileError.message : FileError → String
  | .notFound => "No such file or directory (os error 2)"
  | .alreadyExists => "File exists (os error 17)"
  | .notDirectory => "Not a directory (os error 20)"
  | .isDirectory => "Is a directory (os error 21)"
  | .nameTooLong => "File name too long (os error 36)"
  | .nulInPath => "file name contained an unexpected NUL byte"
  | .notText => "stream did not contain valid UTF-8"
  | .other message => message

end DramTiming
