import QueryBook.NameMap
import QueryBook.Query
import QueryBook.Value

/-!
Arguments of a query: values by parameter name, and the choice of those that a query asks for.
-/

namespace QueryBook

/-- Values by the names of the parameters they are meant for. -/
abbrev Arguments := NameMap Value

/-- Equality of arguments: the same names, each with an equal value. -/
def Arguments.equals (a b : Arguments) : Bool :=
  a.names == b.names && (a.values.zip b.values).all fun (x, y) => x.equals y

/-- A query was called without a value for one of its parameters: a mistake of the caller. -/
structure MissingArgument where
  query : String
  param : String
  deriving DecidableEq, Repr

def MissingArgument.message (e : MissingArgument) : String :=
  s!"query `{e.query}` requires argument `{e.param}`"

/-- The values of the given parameters, or the first of them that has none. -/
def Arguments.select (args : Arguments) : List String → Except String (List Value)
  | [] => .ok []
  | param :: rest =>
    match args.get? param with
    | none => .error param
    | some value =>
      match select args rest with
      | .error missing => .error missing
      | .ok values => .ok (value :: values)

/-- The values for a query's placeholders, in their order. Arguments for which the query has no
parameter are left out. -/
def Query.bind (q : Query) (args : Arguments) : Except MissingArgument (List Value) :=
  (args.select q.params).mapError fun param => ⟨q.name, param⟩

end QueryBook
