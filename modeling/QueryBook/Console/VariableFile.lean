import QueryBook.Console.Environment
import QueryBook.Text.Alphanumeric
import QueryBook.Text.Split
import QueryBook.Text.Utf8

/-!
A file of variables, one definition `NAME=value` a line. Quotes keep blanks and go on over line
ends, `$NAME` stands for the value of a variable, a backslash takes away what the next character
means, and a number sign begins a comment. The first line that cannot be read ends the file.
-/

namespace QueryBook.Console.VariableFile

/-! ## Lines -/

/-- The bytes that a file may begin with to tell that it is UTF-8. -/
def byteOrderMark : List UInt8 := [0xEF, 0xBB, 0xBF]

/-- Lines of bytes, each with the line feed that ends it; the last may have none. -/
def byteLines : List UInt8 → List (List UInt8)
  | [] => []
  | b :: rest =>
    if b == 0x0A then [b] :: byteLines rest
    else match byteLines rest with
      | [] => [[b]]
      | line :: lines => (b :: line) :: lines

/-- The lines up to the first that is not UTF-8. -/
def readableLines : List (List UInt8) → List (List Char)
  | [] => []
  | line :: rest =>
    match Text.Utf8.decodeFrom 0 line with
    | .ok s => s :: readableLines rest
    | .error _ => []

/-- Where a line stands, as far as it matters to whether the next one continues it. -/
inductive Position where
  | plain
  /-- After a blank, so that a number sign would begin a comment. -/
  | blank
  | escape
  /-- Between quotes of one kind; `escaped` after a backslash. -/
  | quoted (mark : Char) (escaped : Bool)
  deriving DecidableEq, Repr

/-- The position after a character outside of quotes. -/
def Position.ofPlain (c : Char) : Position :=
  if c == '\x5c' then .escape
  else if c == '"' || c == '\x27' then .quoted c false
  else .plain

/-- The position after one more character; none if it begins a comment. -/
def Position.next? (c : Char) : Position → Option Position
  | .plain =>
    if Text.isBlank c && c != '\n' && c != '\r' then some .blank else some (.ofPlain c)
  | .blank => if c == '#' then none else some (.ofPlain c)
  | .escape => some .plain
  | .quoted mark true => some (.quoted mark false)
  | .quoted mark false =>
    if c == '\x5c' then some (.quoted mark true)
    else if c == mark then some .plain
    else some (.quoted mark false)

/-- A line up to its comment, and the position at its end if it has no comment. -/
def cutComment : Position → List Char → List Char × Option Position
  | position, [] => ([], some position)
  | position, c :: rest =>
    match position.next? c with
    | none => ([], none)
    | some position =>
      let (kept, final) := cutComment position rest
      (c :: kept, final)

/-- Lines joined where one continues the other, without comments. `read` is the beginning of a line
that goes on. A line that is not complete at the end of the file is left out. -/
def joinLines (read : List Char) (position : Position) : List (List Char) → List (List Char)
  | [] => []
  | line :: rest =>
    if ((read ++ line).dropWhile Text.isBlank).head? == some '#' then joinLines [] .plain rest
    else match cutComment position line with
      | (kept, none) | (kept, some .plain) => (read ++ kept) :: joinLines [] .plain rest
      | (kept, some position) => joinLines (read ++ kept) position rest

/-- The lines of a file, as far as it can be read. -/
def lines (bytes : List UInt8) : List (List Char) :=
  let bytes := (byteOrderMark.isPrefixOf? bytes).getD bytes
  joinLines [] .plain (readableLines (byteLines bytes))

/-! ## Values -/

/-- Where reading a value stands. What has been read of a variable's name is kept in reverse. -/
inductive ValuePosition where
  /-- `quoted` tells whether this is between double quotes. -/
  | text (quoted : Bool)
  | escape (quoted : Bool)
  /-- Between single quotes, where every character stands for itself. -/
  | literal
  /-- In the name after a dollar sign. -/
  | name (read : List Char) (quoted : Bool)
  /-- In a name between braces after a dollar sign. -/
  | bracedName (read : List Char) (quoted : Bool)
  /-- After a blank, which ends the value. -/
  | ended
  deriving DecidableEq, Repr

/-- What a character stands for after a backslash. -/
def unescape? (c : Char) : Option Char :=
  if c == 'n' then some '\n'
  else if ['\x5c', '\x27', '"', '$', ' '].contains c then some c
  else none

/-- The value from a position on. The name of a variable without braces ends before the first
character that is no letter or number; that character stands for itself, whatever it is, unless it
begins another name. -/
def readValue (valueOf : String → List Char) : ValuePosition → List Char → Option (List Char)
  | .text false, [] | .escape false, [] | .ended, [] => some []
  | .name read false, [] => some (valueOf (String.ofList read.reverse))
  | _, [] => none
  | .text quoted, c :: s =>
    if c == '$' then readValue valueOf (.name [] quoted) s
    else if c == '\x5c' then readValue valueOf (.escape quoted) s
    else if c == '"' then readValue valueOf (.text !quoted) s
    else if quoted then (readValue valueOf (.text quoted) s).map (c :: ·)
    else if c == '\x27' then readValue valueOf .literal s
    else if c == ' ' || c == '\t' then readValue valueOf .ended s
    else (readValue valueOf (.text quoted) s).map (c :: ·)
  | .escape quoted, c :: s =>
    match unescape? c with
    | none => none
    | some c => (readValue valueOf (.text quoted) s).map (c :: ·)
  | .literal, c :: s =>
    if c == '\x27' then readValue valueOf (.text false) s
    else (readValue valueOf .literal s).map (c :: ·)
  | .name read quoted, c :: s =>
    if Text.isAlphanumeric c then readValue valueOf (.name (c :: read) quoted) s
    else if c == '\x7b' && read.isEmpty then readValue valueOf (.bracedName [] quoted) s
    else
      let value := valueOf (String.ofList read.reverse)
      if c == '$' then (readValue valueOf (.name [] quoted) s).map (value ++ ·)
      else (readValue valueOf (.text quoted) s).map (value ++ c :: ·)
  | .bracedName read quoted, c :: s =>
    if c == '\x7d' then
      (readValue valueOf (.text quoted) s).map (valueOf (String.ofList read.reverse) ++ ·)
    else readValue valueOf (.bracedName (c :: read) quoted) s
  | .ended, c :: s =>
    if c == ' ' || c == '\t' then readValue valueOf .ended s
    else if c == '#' then some []
    else none

/-! ## Definitions -/

/-- What a line says. -/
inductive Line where
  | nothing
  | definition (name value : String)
  | malformed
  deriving DecidableEq, Repr

def isNameStart (c : Char) : Bool :=
  c.isAlpha || c == '_'

def isNamePart (c : Char) : Bool :=
  c.isAlphanum || c == '_' || c == '.'

/-- The name at the beginning of a text and what follows it, without the blanks between. -/
def readName (s : List Char) : Option (String × List Char) :=
  if s.head?.any isNameStart then
    some (String.ofList (s.takeWhile isNamePart), (s.dropWhile isNamePart).dropWhile Text.isBlank)
  else none

/-- The definition of a name by what stands after its equals sign. -/
def define (valueOf : String → List Char) (name : String) (s : List Char) : Line :=
  let s := s.dropWhile Text.isBlank
  if s.isEmpty || s.head? == some '#' then .definition name ""
  else match readValue valueOf (.text false) s with
    | some value => .definition name (String.ofList value)
    | none => .malformed

/-- Reads a line. The word `export` may stand before a name, and may be a name itself. -/
def Line.read (valueOf : String → List Char) (line : List Char) : Line :=
  let s := (Text.trimEnd line).dropWhile Text.isBlank
  if s.isEmpty || s.head? == some '#' then .nothing
  else match readName s with
    | some (name, '=' :: s) => define valueOf name s
    | some ("export", s) =>
      match readName s with
      | some (name, '=' :: s) => define valueOf name s
      | _ => .malformed
    | _ => .malformed

/-- An environment with the variables that lines define. A variable that is there already is left as
it is. -/
def extend (environment : Environment) : List (List Char) → Environment
  | [] => environment
  | line :: rest =>
    match Line.read (fun name => ((environment.get? name).getD "").toList) line with
    | .malformed => environment
    | .nothing => extend environment rest
    | .definition name value =>
      if (environment.get? name).isSome then extend environment rest
      else extend (environment.add name value) rest

end QueryBook.Console.VariableFile
