import QueryBook.Query
import QueryBook.Source
import QueryBook.Text.Split

/-!
Reading the queries of a source. A source is read line by line. A header line

    -- name: get-user

opens a block, and the block is a query once its text ends with a semicolon. Text before the first
header is prose; a block that is still open at the next header or at the end is dropped; after the
semicolon only blank lines and comments may stand before the next header.
-/

namespace QueryBook.Block

open Text (words normalize trimEnd isAllBlank lines)

/-- A line without its comment, which two dashes begin. -/
def stripComment : List Char → List Char
  | '-' :: '-' :: _ => []
  | c :: s => c :: stripComment s
  | [] => []

/-- What a line of a source is. -/
inductive Line where
  | header (name : String)
  /-- A header whose name is missing. -/
  | namelessHeader
  /-- Any other line, without its comment. -/
  | code (text : List Char)
  deriving DecidableEq, Repr

/-- A header has exactly three words: two dashes, `name:` and the name. With two words the name is
missing; with more than three the line is a comment. -/
def Line.read (line : List Char) : Line :=
  match words line with
  | dashes :: label :: rest =>
    if dashes == ['-', '-'] && label == ['n', 'a', 'm', 'e', ':'] then
      match rest with
      | [] => .namelessHeader
      | [name] => .header (String.ofList name)
      | _ => .code (stripComment line)
    else .code (stripComment line)
  | _ => .code (stripComment line)

/-- A text ends a block when a semicolon is the last thing in it that is not blank. -/
def isTerminated (text : List Char) : Bool :=
  (trimEnd text).getLast? == some ';'

/-- A text without one semicolon at its very end and the blanks before it. -/
def dropTerminator (text : List Char) : List Char :=
  trimEnd (if text.getLast? == some ';' then text.dropLast else text)

/-- The statement of a terminated block: blanks collapsed, one semicolon taken off. -/
def statement (text : List Char) : List Char :=
  dropTerminator (normalize text)

/-- The query of a terminated block. -/
def finish (source name : String) (text : List Char) : Except LoadError Query :=
  let s := statement text
  if s.isEmpty then .error (.emptyQuery source name) else .ok (.ofStatement name s)

/-- Where reading stands between two lines. -/
inductive Position where
  /-- Before the first header. -/
  | prose
  /-- In the block of this name, with the text read so far. -/
  | block (name : String) (text : List Char)
  /-- After the terminator of the query of this name. -/
  | closed (name : String)
  deriving DecidableEq, Repr

/-- Reads one line: the position after it and the query that it ends, if it ends one. -/
def Position.step (source : String) (number : Nat) (p : Position) (line : List Char) :
    Except LoadError (Position × Option Query) :=
  match Line.read line with
  | .namelessHeader => .error (.namelessHeader source number)
  | .header name => .ok (.block name [], none)
  | .code text =>
    match p with
    | .prose => .ok (.prose, none)
    | .closed name =>
      if isAllBlank text then .ok (.closed name, none)
      else .error (.trailingStatement source number name)
    | .block name before =>
      let text := before ++ ' ' :: text
      if isTerminated text then
        match finish source name text with
        | .error e => .error e
        | .ok query => .ok (.closed name, some query)
      else .ok (.block name text, none)

/-- Reads lines, the first of which has the given number. -/
def readLines (source : String) (number : Nat) (p : Position) :
    List (List Char) → Except LoadError (List Query)
  | [] => .ok []
  | line :: rest =>
    match p.step source number line with
    | .error e => .error e
    | .ok (p, query) =>
      match readLines source (number + 1) p rest with
      | .error e => .error e
      | .ok queries => .ok (query.toList ++ queries)

end QueryBook.Block

namespace QueryBook

/-- The queries that a source defines, in order. A name may occur more than once. -/
def Source.queries (source : Source) : Except LoadError (List Query) :=
  Block.readLines source.name 1 .prose (Text.lines source.text.toList)

end QueryBook
