import QueryBook.Connection.Parameters

/-!
Connection strings such as `host=localhost user=me`: keys and values with equals signs between them.
A value may stand in single quotes, and a backslash takes the next character as it is. Where a key
is empty, reading ends.
-/

namespace QueryBook.Connection.KeyValue

/-- Where reading stands. What has been read of a key or value is kept in reverse. -/
inductive Position where
  /-- Between parameters. -/
  | between
  | key (read : List Char)
  /-- Between a key and its equals sign. -/
  | afterKey (key : String)
  /-- After the equals sign. -/
  | beforeValue (key : String)
  | value (key : String) (read : List Char)
  /-- After a backslash; `quoted` tells whether the value is in quotes. -/
  | escape (key : String) (read : List Char) (quoted : Bool)
  | quoted (key : String) (read : List Char)

def keyOf (read : List Char) : String :=
  String.ofList read.reverse

/-- The keys and values from a position on. -/
def pairs : Position → List Char → Option (List (String × String))
  | .between, [] => some []
  | .value key read, [] => some [(key, keyOf read)]
  | .escape key read false, [] => if read.isEmpty then none else some [(key, keyOf read)]
  | _, [] => none
  | .between, c :: s =>
    if Text.isBlank c then pairs .between s
    else if c == '=' then some []
    else pairs (.key [c]) s
  | .key read, c :: s =>
    if c == '=' then pairs (.beforeValue (keyOf read)) s
    else if Text.isBlank c then pairs (.afterKey (keyOf read)) s
    else pairs (.key (c :: read)) s
  | .afterKey key, c :: s =>
    if c == '=' then pairs (.beforeValue key) s
    else if Text.isBlank c then pairs (.afterKey key) s
    else none
  | .beforeValue key, c :: s =>
    if Text.isBlank c then pairs (.beforeValue key) s
    else if c == '\x27' then pairs (.quoted key []) s
    else if c == '\x5c' then pairs (.escape key [] false) s
    else pairs (.value key [c]) s
  | .value key read, c :: s =>
    if Text.isBlank c then (pairs .between s).map ((key, keyOf read) :: ·)
    else if c == '\x5c' then pairs (.escape key read false) s
    else pairs (.value key (c :: read)) s
  | .escape key read quoted, c :: s =>
    pairs (if quoted then .quoted key (c :: read) else .value key (c :: read)) s
  | .quoted key read, c :: s =>
    if c == '\x27' then (pairs .between s).map ((key, keyOf read) :: ·)
    else if c == '\x5c' then pairs (.escape key read true) s
    else pairs (.quoted key (c :: read)) s

/-- The parameters that a text gives. -/
def read (s : List Char) : Option Parameters :=
  (pairs .between s).bind fun given =>
    given.foldlM (fun p (key, value) => p.set? key value) {}

end QueryBook.Connection.KeyValue
