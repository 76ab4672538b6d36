import QueryBook.Statement

/-!
Named queries: one statement each, ready to be sent to a database, with the names of the parameters
that its placeholders stand for.
-/

namespace QueryBook

structure Query where
  name : String
  /-- The statement with placeholders, without its terminator. -/
  body : String
  /-- The parameter at index `i` is the one that placeholder `i + 1` stands for. -/
  params : List String
  deriving DecidableEq, Repr

/-- The query of a statement with named parameters. -/
def Query.ofStatement (name : String) (statement : List Char) : Query where
  name := name
  body := String.ofList (Statement.render statement)
  params := Statement.params statement

/-- The query as the text of a source that defines it. -/
def Query.sourceText (q : Query) : String :=
  "-- name: " ++ q.name ++ "\n" ++ q.body ++ ";\n"

end QueryBook
