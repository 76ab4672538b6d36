import QueryBook.Wire.Decode
import QueryBook.Wire.Encode

/-!
What can go wrong between this library and a database: what the server reports, and what the client
finds before or after the server has its say.
-/

namespace QueryBook

/-- An error that the server reports. -/
structure ServerError where
  /-- The code of the kind of error, five characters. -/
  sqlState : String
  message : String
  severity : String := "ERROR"
  detail : Option String := none
  hint : Option String := none
  deriving DecidableEq, Repr

def ServerError.text (e : ServerError) : String :=
  s!"{e.severity}: {e.message}" ++
    (match e.detail with
      | some detail => "\nDETAIL: " ++ detail
      | none => "") ++
    (match e.hint with
      | some hint => "\nHINT: " ++ hint
      | none => "")

/-- How a column is asked for. -/
inductive ColumnKey where
  | index (i : Nat)
  | named (columnName : String)
  deriving DecidableEq, Repr

def ColumnKey.text : ColumnKey → String
  | .index i => Text.Decimal.ofNat i
  | .named columnName => columnName

inductive ClientError where
  | server (e : ServerError)
  /-- The statement has another number of parameters than values were given. -/
  | parameterCount (expected given : Nat)
  /-- The value at this index cannot be passed. -/
  | parameter (index : Nat) (cause : EncodeError)
  /-- A row has another number of cells than there are columns. -/
  | malformedRow
  /-- More than one row where at most one was asked for. -/
  | rowCount
  /-- A statement cannot hold a NUL. -/
  | nulInStatement
  | noColumn (key : ColumnKey)
  /-- The cell in the column at this index cannot be read. -/
  | cell (index : Nat) (cause : DecodeError)
  deriving DecidableEq

namespace ClientError

/-- The texts of an error and of what caused it, from the outermost inwards. -/
def causes : ClientError → List String
  | .server e => ["db error", e.text]
  | .parameterCount expected given =>
    [s!"expected {Text.Decimal.ofNat expected} parameters but got {Text.Decimal.ofNat given}"]
  | .parameter index cause =>
    [s!"error serializing parameter {Text.Decimal.ofNat index}", cause.message]
  | .malformedRow =>
    ["error parsing response from server",
     "DataRow field count does not match the number of columns"]
  | .rowCount => ["query returned an unexpected number of rows"]
  | .nulInStatement => ["error encoding message to server", "string contains embedded null"]
  | .noColumn key => [s!"invalid column `{key.text}`"]
  | .cell index cause =>
    [s!"error deserializing column {Text.Decimal.ofNat index}", cause.message]

def message (e : ClientError) : String :=
  e.causes.headD ""

/-- The code that the server gave, if the error came from there. -/
def sqlState : ClientError → Option String
  | .server e => some e.sqlState
  | _ => none

end ClientError

end QueryBook
