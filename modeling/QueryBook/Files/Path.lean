import QueryBook.Text.Split
import QueryBook.Text.Utf8

/-!
Paths and the names in them. The system keeps both as bytes, which need not be UTF-8. Where a path
is shown to people, replacement characters stand for what is not.
-/

namespace QueryBook.Files

/-- A path, or a name in one. -/
@[ext]
structure Path where
  bytes : List UInt8
  deriving DecidableEq, Repr

namespace Path

/-- The path that a text spells. -/
def ofText (text : String) : Path :=
  ⟨Text.Utf8.encode text⟩

instance : Coe String Path := ⟨ofText⟩

/-- A path as it is shown to people. -/
def display (path : Path) : String :=
  Text.Utf8.decodeLossy path.bytes

/-- The byte that parts the names in a path. -/
def slash : UInt8 := 0x2F

def dot : UInt8 := 0x2E

/-- The names in a path. -/
def names (path : Path) : List Path :=
  (Text.split (· == slash) path.bytes).map mk

/-- Whether a path starts at the root of all directories. -/
def isAbsolute (path : Path) : Bool :=
  path.bytes.head? == some slash

/-- Whether a name stands for the directory that it is looked up in. -/
def isHere (name : Path) : Bool :=
  name.bytes == [] || name.bytes == [dot]

/-- Whether a name stands for the directory above. -/
def isAbove (name : Path) : Bool :=
  name.bytes == [dot, dot]

/-- The path of an entry of the directory at a path. -/
def entry (directory name : Path) : Path :=
  if directory.bytes.isEmpty || directory.bytes.getLast? == some slash then
    ⟨directory.bytes ++ name.bytes⟩
  else ⟨directory.bytes ++ slash :: name.bytes⟩

/-- The part of a name after its last dot, if something stands before that dot. -/
def extension? (name : Path) : Option Path :=
  let reversed := name.bytes.reverse
  match reversed.dropWhile (· != dot) with
  | _ :: _ :: _ => some ⟨(reversed.takeWhile (· != dot)).reverse⟩
  | _ => none

end Path

end QueryBook.Files
