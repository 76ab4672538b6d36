import QueryBook.Text.Decimal

/-!
Statements with named parameters. A parameter is written as a colon and a name; a statement is read
as characters and parameters, its parameters are numbered, and it is written again with a number in
place of each parameter.
-/

namespace QueryBook.Statement

/-- What a statement is made of. -/
inductive Piece where
  | char (c : Char)
  | param (name : String)
  deriving DecidableEq, Repr

/-- The letters of ASCII, which alone begin a parameter's name. -/
def isLetter (c : Char) : Bool :=
  ('a' ≤ c && c ≤ 'z') || ('A' ≤ c && c ≤ 'Z')

/-- What a name holds after its first letter. -/
def isNameChar (c : Char) : Bool :=
  isLetter c || c == '_'

def startsName : List Char → Bool
  | [] => false
  | c :: _ => isLetter c

/-- The pieces of a text of which the first `skip` characters belong to a parameter that has been
read. A colon that stands after a colon begins no parameter: `::` is a cast. -/
def scan (skip : Nat) (afterColon : Bool) : List Char → List Piece
  | [] => []
  | c :: s =>
    match skip with
    | skip + 1 => scan skip false s
    | 0 =>
      if c == ':' && !afterColon && startsName s then
        let name := s.takeWhile isNameChar
        .param (String.ofList name) :: scan name.length false s
      else .char c :: scan 0 (c == ':') s

/-- Scanning goes on after the skipped characters as at the start of a text. -/
theorem scan_eq_scan_drop (s : List Char) (skip : Nat) (h : 0 < skip) (afterColon : Bool) :
    scan skip afterColon s = scan 0 false (s.drop skip) := by
  induction s generalizing skip afterColon with
  | nil => simp [scan]
  | cons c s ih =>
    obtain ⟨n, rfl⟩ : ∃ n, skip = n + 1 := ⟨skip - 1, by omega⟩
    by_cases hn : n = 0
    · subst hn
      simp [scan]
    · simp [scan, ih n (by omega)]

/-- The pieces of a statement. -/
def pieces (s : List Char) : List Piece :=
  scan 0 false s

/-- The names of the parameters among pieces, in order of appearance. -/
def names : List Piece → List String
  | [] => []
  | .char _ :: rest => names rest
  | .param name :: rest => name :: names rest

/-- Whether a name is numbered before another: the longer one is, and of two names of one length
the alphabetically smaller. -/
def outranks (a b : String) : Bool :=
  b.length < a.length || (a.length == b.length && a < b)

/-- Puts a name in its place among ranked names, unless it is one of them. -/
def insertRanked (name : String) : List String → List String
  | [] => [name]
  | other :: rest =>
    if name = other then other :: rest
    else if outranks name other then name :: other :: rest
    else other :: insertRanked name rest

/-- The distinct names by rank. The place of a name in this list, counted from 1, is its number. -/
def rank (names : List String) : List String :=
  names.foldr insertRanked []

/-- The parameters of a statement in the order of their numbers. -/
def params (s : List Char) : List String :=
  rank (names (pieces s))

/-- What a numbered statement is made of. -/
inductive NumberedPiece where
  | char (c : Char)
  | placeholder (number : Nat)
  deriving DecidableEq, Repr

/-- A parameter becomes the placeholder with its number. -/
def Piece.number (params : List String) : Piece → NumberedPiece
  | .char c => .char c
  | .param name => .placeholder (params.idxOf name + 1)

/-- A placeholder is written as a dollar sign and its number. -/
def NumberedPiece.render : NumberedPiece → List Char
  | .char c => [c]
  | .placeholder number => '$' :: Text.Decimal.digits number

/-- The pieces of a statement with its parameters numbered. -/
def numbered (s : List Char) : List NumberedPiece :=
  (pieces s).map (Piece.number (params s))

/-- The text of a statement with its parameters numbered. -/
def render (s : List Char) : List Char :=
  (numbered s).flatMap NumberedPiece.render

end QueryBook.Statement
