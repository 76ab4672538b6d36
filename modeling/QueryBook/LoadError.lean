import QueryBook.Files.Path
import QueryBook.Text.Decimal

/-!
What can be wrong with query sources, with the files that hold them, and with a set of patches.
Nothing here is worth retrying: someone has to mend a file.
-/

namespace QueryBook

/-- Why the operating system refuses a path. -/
inductive FileError where
  | notFound
  | notADirectory
  | isADirectory
  | nameTooLong
  | permissionDenied
  /-- What is there cannot be opened as a file. -/
  | noDevice
  /-- The path holds a NUL, so no file can have it. -/
  | nulInName
  deriving DecidableEq, Repr

def FileError.message : FileError → String
  | .notFound => "No such file or directory (os error 2)"
  | .notADirectory => "Not a directory (os error 20)"
  | .isADirectory => "Is a directory (os error 21)"
  | .nameTooLong => "File name too long (os error 36)"
  | .permissionDenied => "Permission denied (os error 13)"
  | .noDevice => "No such device or address (os error 6)"
  | .nulInName => "file name contained an unexpected NUL byte"

/-- Why sources cannot be loaded or patches cannot be found among their queries. -/
inductive LoadError where
  | unreadable (path : Files.Path) (cause : FileError)
  | notUtf8 (source : String)
  /-- A header line without a name; lines count from 1. -/
  | namelessHeader (source : String) (line : Nat)
  /-- Text after the terminator of a query and before the next header. -/
  | trailingStatement (source : String) (line : Nat) (query : String)
  | emptyQuery (source : String) (query : String)
  | invalidPatchName (name : String)
  | duplicatePatchVersion (version : Int64) (first second : String)
  | noPatches (patchPrefix : String)
  deriving DecidableEq

def LoadError.message : LoadError → String
  | .unreadable path cause => s!"failed to read `{path.display}`: {cause.message}"
  | .notUtf8 source => s!"source `{source}` is not valid UTF-8"
  | .namelessHeader source line =>
    s!"`{source}` line {Text.Decimal.ofNat line}: query header has no name"
  | .trailingStatement source line query =>
    s!"`{source}` line {Text.Decimal.ofNat line}: statement after the end of query `{query}`"
  | .emptyQuery source query => s!"query `{query}` in `{source}` has an empty body"
  | .invalidPatchName name => s!"invalid patch name: `{name}`"
  | .duplicatePatchVersion version first second =>
    s!"duplicate patch version {Text.Decimal.ofInt version.toInt}: `{first}` and `{second}`"
  | .noPatches patchPrefix => s!"no patches found with prefix `{patchPrefix}`"

end QueryBook
