import QueryBook.Catalog
import QueryBook.Files.Tree

/-!
Sources from files: a single file, or all the files of a directory whose names end in `.sql`. The
order in which the directory is listed does not matter, because the files are taken in the order of
the bytes of their names.
-/

namespace QueryBook

namespace Files

/-- Whether a name is that of a file of queries. -/
def isQueryName (name : Path) : Bool :=
  name.extension? == some (.ofText "sql")

/-- What reading a file gives. -/
abbrev Reading := Except FileError (List UInt8)

/-- An entry that is a file of queries, with what reading it gives. -/
def queryFile? (entry : Path × Node) : Option (Path × Reading) :=
  if isQueryName entry.1 then
    match entry.2 with
    | .file bytes => some (entry.1, .ok bytes)
    | .sealedFile cause => some (entry.1, .error cause)
    | .directory _ | .socket => none
  else none

/-- The files of queries in a directory, in ascending order of the bytes of their names. -/
def queryFiles (entries : Listing) : List (Path × Reading) :=
  (entries.filterMap queryFile?).mergeSort fun a b => a.1.bytes ≤ b.1.bytes

end Files

namespace Source

/-- The source of a name from what reading the file at a path gives. -/
def ofReading (path : Files.Path) (name : String) : Files.Reading → Except LoadError Source
  | .error e => .error (.unreadable path e)
  | .ok bytes => ofBytes name bytes

/-- Sources from files of a directory; the first that cannot be read or is not UTF-8 decides. -/
def ofFiles (directory : Files.Path) :
    List (Files.Path × Files.Reading) → Except LoadError (List Source)
  | [] => .ok []
  | (name, reading) :: rest =>
    match ofReading (directory.entry name) name.display reading with
    | .error e => .error e
    | .ok source =>
      match ofFiles directory rest with
      | .error e => .error e
      | .ok sources => .ok (source :: sources)

/-- The sources in the directory at a path, which has been listed. -/
def ofListing (directory : Files.Path) (entries : Files.Listing) : Except LoadError (List Source) :=
  ofFiles directory (Files.queryFiles entries)

/-- The source in one file, which is named after the file. -/
def ofFile (root : Files.Node) (path : Files.Path) : Except LoadError Source :=
  ofReading path (path.names.getLast?.getD path).display (Files.readFile root path)

/-- The sources in the directory at a path. -/
def ofDirectory (root : Files.Node) (path : Files.Path) : Except LoadError (List Source) :=
  match Files.list root path with
  | .error e => .error (.unreadable path e)
  | .ok entries => ofListing path entries

end Source

/-- Adds the queries of all sources in a directory. -/
def Catalog.loadDirectory (c : Catalog) (root : Files.Node) (path : Files.Path) :
    Except LoadError Catalog :=
  match Source.ofDirectory root path with
  | .error e => .error e
  | .ok sources => c.load sources

end QueryBook
