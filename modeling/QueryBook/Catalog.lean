import QueryBook.Block
import QueryBook.NameMap

/-!
The catalog: all queries that have been loaded, by name.
-/

namespace QueryBook

/-- Queries by name; each stands under its own name. -/
structure Catalog where
  queries : NameMap Query
  named : ∀ e ∈ queries.entries, e.1 = e.2.name

namespace Catalog

def empty : Catalog where
  queries := ∅
  named := fun _ he => nomatch he

instance : EmptyCollection Catalog := ⟨empty⟩

instance : Inhabited Catalog := ⟨empty⟩

/-- Adds a query; a query of the same name is replaced. -/
def insert (c : Catalog) (q : Query) : Catalog where
  queries := c.queries.insert q.name q
  named := fun e he => by
    rcases NameMap.eq_or_mem_of_mem_insertEntry he with rfl | he
    · rfl
    · exact c.named e he

def insertAll (c : Catalog) (queries : List Query) : Catalog :=
  queries.foldl insert c

def get? (c : Catalog) (name : String) : Option Query :=
  c.queries.get? name

def contains (c : Catalog) (name : String) : Bool :=
  c.queries.contains name

def size (c : Catalog) : Nat :=
  c.queries.size

def isEmpty (c : Catalog) : Bool :=
  c.queries.isEmpty

/-- All queries in ascending order of their names. -/
def toList (c : Catalog) : List Query :=
  c.queries.values

/-- The queries of several sources, or the error of the first source that has one. -/
def readAll : List Source → Except LoadError (List Query)
  | [] => .ok []
  | source :: rest =>
    match source.queries with
    | .error e => .error e
    | .ok queries =>
      match readAll rest with
      | .error e => .error e
      | .ok more => .ok (queries ++ more)

/-- Adds the queries of several sources. All sources are read before any query is added. A name
that is defined again keeps its last definition. -/
def load (c : Catalog) (sources : List Source) : Except LoadError Catalog :=
  (readAll sources).map c.insertAll

end Catalog

end QueryBook
