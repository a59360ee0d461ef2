/-!
# File errors

## Main Definitions

* `IoError` — why a file cannot be read or written
-/

namespace Quasiquote

/-- The errors of reading and writing files. -/
inductive IoError where
  | notFound
  | alreadyExists
  | notADirectory
  | isADirectory
  | nameTooLong
  | busy
  /-- A path that holds a NUL character. -/
  | nulInPath
  /-- A file whose bytes are no text. -/
  | notText
  /-- Any other error, in the words of the system. -/
  | other (text : String)
deriving DecidableEq, Repr

namespace IoError

/-- The text of the error. -/
def message : IoError → String
  | notFound => "No such file or directory (os error 2)"
  | alreadyExists => "File exists (os error 17)"
  | notADirectory => "Not a directory (os error 20)"
  | isADirectory => "Is a directory (os error 21)"
  | nameTooLong => "File name too long (os error 36)"
  | busy => "Device or resource busy (os error 16)"
  | nulInPath => "file name contained an unexpected NUL byte"
  | notText => "stream did not contain valid UTF-8"
  | other text => text

end IoError

end Quasiquote
