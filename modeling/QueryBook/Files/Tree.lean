import QueryBook.LoadError
import QueryBook.Text.Split

/-!
Directories, files and sockets, and how a path leads to one of them. Names are parted by slashes; an
empty name and a single dot stand for the directory itself, two dots for the one above it.
-/

namespace QueryBook.Files

inductive Node where
  | file (bytes : List UInt8)
  /-- A file that the system does not let be read. -/
  | sealedFile (cause : FileError)
  | directory (entries : List (Path × Node))
  /-- Where a server listens. -/
  | socket

/-- What a directory holds, in any order. -/
abbrev Listing := List (Path × Node)

instance : Inhabited Node := ⟨.directory []⟩

/-- The longest name that a file can have, and the longest path that is followed, in bytes. -/
def maxNameBytes : Nat := 255

def maxPathBytes : Nat := 4095

namespace Node

def entries : Node → Listing
  | .directory entries => entries
  | .file _ | .sealedFile _ | .socket => []

/-- Gives a name in a directory to a node, in place of what had the name before. -/
def setEntry (entries : Listing) (name : Path) (node : Node) : Listing :=
  entries.filter (·.1 != name) ++ [(name, node)]

/-- Changes the node at the end of a path of names. What is missing on the way is made, and a file
on the way gives way to a directory. -/
def update (change : Node → Node) : List Path → Node → Node
  | [], tree => change tree
  | name :: rest, tree =>
    let child := (tree.entries.lookup name).getD (.directory [])
    .directory (setEntry tree.entries name (update change rest child))

/-- A directory with what the node holds. -/
def asDirectory (node : Node) : Node :=
  .directory node.entries

/-- Makes the directories that names lead through from `here`, and returns where they lead to. -/
def makeDirectories (here : List Path) : List Path → Node → List Path × Node
  | [], tree => (here, tree)
  | name :: rest, tree =>
    if name.isHere then makeDirectories here rest tree
    else if name.isAbove then makeDirectories here.dropLast rest tree
    else
      let here := here ++ [name]
      makeDirectories here rest (tree.update asDirectory here)

/-- Follows names from `here`; `above` holds the directories over it, the nearest first. Two dots in
the topmost directory stay there. -/
def follow (above : List Node) (here : Node) : List Path → Except FileError Node
  | [] => .ok here
  | name :: rest =>
    match here with
    | .file _ | .sealedFile _ | .socket => .error .notADirectory
    | .directory entries =>
      if name.isHere then follow above here rest
      else if name.isAbove then
        match above with
        | [] => follow [] here rest
        | parent :: above => follow above parent rest
      else if maxNameBytes < name.bytes.length then .error .nameTooLong
      else match entries.lookup name with
        | none => .error .notFound
        | some child => follow (here :: above) child rest

end Node

/-- The tree with a directory at a path. -/
def makeDirectory (path : Path) (root : Node) : Node :=
  (root.makeDirectories [] path.names).2

/-- The tree with a node that is no directory at a path. -/
def makeLeaf (path : Path) (leaf : Node) (root : Node) : Node :=
  let (parent, root) := root.makeDirectories [] path.names.dropLast
  root.update (fun _ => leaf) (parent ++ path.names.getLast?.toList)

/-- The tree with a file at a path. -/
def makeFile (path : Path) (bytes : List UInt8) : Node → Node :=
  makeLeaf path (.file bytes)

/-- The tree with a socket at a path. -/
def makeSocket (path : Path) : Node → Node :=
  makeLeaf path .socket

/-- The path of the working directory. -/
def workingDirectory : String := "/tmp/working-dir"

/-- The system around a working directory: the directories that a system has at its root, and the
empty file that it has. A running program finds its working directory under `/proc/self` too.
Nothing else is known of these directories, so that they seem empty. -/
def systemAround (work : Node) : Node :=
  let names : List Path := ["bin", "boot", "etc", "home", "lib", "media", "mnt", "opt", "root", "run",
    "sbin", "srv", "sys", "usr", "var"]
  let filled : Listing :=
    [("dev", .directory [("null", .file [])]),
     ("proc", .directory [("self", .directory [("cwd", work)])]),
     ("tmp", .directory [("working-dir", work)])]
  .directory (filled ++ names.map fun name => (name, .directory []))

/-- The node at a path, which starts at the working directory `root` unless it is absolute. -/
def find (root : Node) (path : Path) : Except FileError Node :=
  if path.bytes.contains 0 then .error .nulInName
  else if path.bytes.isEmpty then .error .notFound
  else if maxPathBytes < path.bytes.length then .error .nameTooLong
  else
    let above := if path.isAbsolute then [] else Path.names workingDirectory
    (systemAround root).follow [] (above ++ path.names)

/-- The bytes of the file at a path. -/
def readFile (root : Node) (path : Path) : Except FileError (List UInt8) :=
  match find root path with
  | .error e => .error e
  | .ok (.file bytes) => .ok bytes
  | .ok (.sealedFile cause) => .error cause
  | .ok (.directory _) => .error .isADirectory
  | .ok .socket => .error .noDevice

/-- The entries of the directory at a path that can be followed. One whose path is too long passes
for no file at all. -/
def reachable (directory : Path) (entries : Listing) : Listing :=
  entries.filter fun entry => (directory.entry entry.1).bytes.length ≤ maxPathBytes

/-- What the directory at a path holds. -/
def list (root : Node) (path : Path) : Except FileError Listing :=
  match find root path with
  | .error e => .error e
  | .ok (.directory entries) => .ok (reachable path entries)
  | .ok _ => .error .notADirectory

/-- Whether there is a socket at a path. -/
def isSocket (root : Node) (path : Path) : Bool :=
  match find root path with
  | .ok .socket => true
  | _ => false

end QueryBook.Files
