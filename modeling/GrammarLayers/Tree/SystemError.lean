/-!
# Errors of the file system

Why a file could not be read, written, listed or found.

## Main definitions

* `SystemError` — the causes
* `SystemError.message` — their descriptions
-/

namespace GrammarLayers

/-- Why the file system refuses something. -/
inductive SystemError where
  | notFound
  /-- Something of this name is there already. -/
  | alreadyExists
  | notDirectory
  | isDirectory
  /-- Links lead on and on, or in a circle. -/
  | tooManyLinks
  | nameTooLong
  /-- A path holds the character NUL. -/
  | nulInPath
  /-- The bytes of a file are no text. -/
  | notText
  deriving DecidableEq, Repr

/-- The description of an error, with the number that the system gives it. -/
def SystemError.message : SystemError → String
  | notFound => "No such file or directory (os error 2)"
  | alreadyExists => "File exists (os error 17)"
  | notDirectory => "Not a directory (os error 20)"
  | isDirectory => "Is a directory (os error 21)"
  | tooManyLinks => "Too many levels of symbolic links (os error 40)"
  | nameTooLong => "File name too long (os error 36)"
  | nulInPath => "file name contained an unexpected NUL byte"
  | notText => "stream did not contain valid UTF-8"

end GrammarLayers
