import QueryBook.Arguments
import QueryBook.Database.ClientError
import QueryBook.LoadError

/-!
Everything that running queries and applying patches can end in, and the coarse kinds by which a
caller decides what to do next.
-/

namespace QueryBook

/-- What was being done with a transaction as a whole. -/
inductive TransactionAction where
  | begin
  | commit
  | rollback
  deriving DecidableEq, Repr

def TransactionAction.word : TransactionAction → String
  | .begin => "begin"
  | .commit => "commit"
  | .rollback => "rollback"

inductive Error where
  | load (e : LoadError)
  | queryNotFound (name : String)
  | rowNotFound (name : String)
  | missingArgument (e : MissingArgument)
  /-- The statement of this query could not be run. -/
  | execute (name : String) (cause : ClientError)
  /-- A row that this query returned could not be read. -/
  | decode (name : String) (cause : ClientError)
  | transaction (action : TransactionAction) (cause : ClientError)
  deriving DecidableEq

inductive ErrorKind where
  /-- Bad sources or a bad set of patches: do not start. -/
  | load
  | notFound
  /-- A mistake of the calling code. -/
  | defect
  /-- The database refused a statement, or a row could not be read. -/
  | execution
  | transaction
  deriving DecidableEq, Repr

namespace Error

def kind : Error → ErrorKind
  | .load _ => .load
  | .queryNotFound _ | .rowNotFound _ => .notFound
  | .missingArgument _ => .defect
  | .execute _ _ | .decode _ _ => .execution
  | .transaction _ _ => .transaction

/-- Whether only a change of code can mend the error. -/
def isDefect (e : Error) : Bool :=
  e.kind == .defect

def message : Error → String
  | .load e => e.message
  | .queryNotFound name => s!"query not found: `{name}`"
  | .rowNotFound name => s!"query `{name}` returned no rows"
  | .missingArgument e => e.message
  | .execute name cause => s!"exec `{name}` failed: {cause.message}"
  | .decode name cause => s!"decoding a row of `{name}` failed: {cause.message}"
  | .transaction action cause => s!"{action.word} transaction failed: {cause.message}"

/-- The texts of what caused the error, from the outermost inwards. -/
def causes : Error → List String
  | .execute _ cause | .decode _ cause | .transaction _ cause => cause.causes
  | _ => []

/-- The code that the server gave, if the error came from there. -/
def sqlState : Error → Option String
  | .execute _ cause | .transaction _ cause => cause.sqlState
  | _ => none

/-- A row with the same key is already there. -/
def isUniqueViolation (e : Error) : Bool :=
  e.sqlState == some "23505"

/-- A row breaks a condition that its table sets. -/
def isCheckViolation (e : Error) : Bool :=
  e.sqlState == some "23514"

end Error

end QueryBook
