import QueryBook.Console.Run

/-!
The program itself: it fetches the words, the environment and the files that a run of the command
line needs, and prints what comes of it. It has no network of its own, so that no database answers
at any address.
-/

namespace QueryBook.Console

/-- The reason for which the operating system refused a path. -/
def fileError : IO.Error → FileError
  | .permissionDenied .. => .permissionDenied
  | .inappropriateType .. => .notADirectory
  | _ => .notFound

/-- A file on disk. -/
def fileOnDisk (entry : IO.FS.DirEntry) : IO Files.Node := do
  try
    return .file (← IO.FS.readBinFile entry.path).toList
  catch e => return .sealedFile (fileError e)

/-- What a directory holds. Only the files of queries are read. -/
def listDirectory (path : String) : IO (Except FileError Files.Listing) := do
  try
    let entries ← ((← IO.currentDir) / path).readDir
    let nodes ← entries.toList.mapM fun entry => do
      if ← entry.path.isDir then return (entry.fileName, .directory [])
      else if Files.isQueryName entry.fileName then
        return (entry.fileName, ← fileOnDisk entry)
      else return (entry.fileName, .file [])
    return .ok (Files.reachable path nodes)
  catch e => return .error (fileError e)

/-- The file with variables in the working directory; no bytes if there is none. -/
def variableFileOnDisk : IO (List UInt8) := do
  try
    return (← IO.FS.readBinFile ".env").toList
  catch _ => return []

/-- The names that a file with variables may ask the environment for: those that it uses and those
that it defines. -/
def mentionedNames (file : List UInt8) : List String :=
  let text := (VariableFile.lines file).flatten
  let braced := Text.split (fun c => c == '\x7b' || c == '\x7d') text
  let defined := Text.split (fun c => !VariableFile.isNamePart c) text
  let used := Text.split (fun c => !Text.isAlphanumeric c) text
  (braced ++ defined ++ used).map String.ofList

/-- The sources in a directory on disk. -/
def diskSources (path : String) : IO (Except LoadError (List Source)) := do
  return match ← listDirectory path with
    | .error e => .error (.unreadable path e)
    | .ok entries => Source.ofListing path entries

/-- The environment as far as it has values of some names. -/
def environmentOf (names : List String) : IO Environment := do
  return .ofList (← names.filterMapM fun name => do
    return (← IO.getEnv name).map fun value => (name, value))

/-- Reads what a run needs and runs it. -/
def runOnDisk (words : List String) : IO Outcome := do
  let file ← variableFileOnDisk
  let environment ← environmentOf (Settings.variableNames ++ mentionedNames file)
  let getVariable := (allVariables environment file).get?
  let usage := Usage.read words
  let sources ← match usage with
    | .perform _ overrides => diskSources (Settings.resolve overrides getVariable).queriesDir
    | _ => pure (.ok [])
  return usage.run getVariable (fun _ => sources) none

end QueryBook.Console

def main (words : List String) : IO UInt32 := do
  let outcome ← QueryBook.Console.runOnDisk words
  IO.print outcome.out
  IO.eprint outcome.err
  return UInt32.ofNat outcome.exitCode
