import QueryBook.Instant
import QueryBook.Query

/-!
The table in which a database keeps the version of the last patch applied to it, and the five
queries on it. The table has at most one row.
-/

namespace QueryBook

/-- The row of the version table. -/
structure VersionRow where
  /-- The version of the last patch applied. -/
  version : Int64
  /-- When the row was first written. -/
  createdAt : Instant
  deriving DecidableEq, Repr

instance : Inhabited VersionRow := ⟨⟨0, default⟩⟩

/-- The queries on the version table. -/
inductive VersionQuery where
  /-- Creates the table unless it exists. -/
  | create
  /-- Asks whether the table exists. -/
  | probe
  | select
  /-- Writes the first row. -/
  | insert
  /-- Changes the version in the row. -/
  | update
  deriving DecidableEq, Repr

namespace VersionQuery

def all : List VersionQuery :=
  [.create, .probe, .select, .insert, .update]

def query : VersionQuery → Query
  | .create =>
    { name := "quire.create-db-version"
      body := "CREATE TABLE IF NOT EXISTS quire_db_version ( " ++
        "id BOOLEAN PRIMARY KEY DEFAULT TRUE CHECK (id), version BIGINT NOT NULL, " ++
        "created_at TIMESTAMPTZ NOT NULL DEFAULT now() )"
      params := [] }
  | .probe =>
    { name := "quire.db-version-exists"
      body := "SELECT to_regclass('quire_db_version') IS NOT NULL"
      params := [] }
  | .select =>
    { name := "quire.select-db-version"
      body := "SELECT version, created_at FROM quire_db_version WHERE id"
      params := [] }
  | .insert =>
    { name := "quire.insert-db-version"
      body := "INSERT INTO quire_db_version (id, version) VALUES (TRUE, $1) " ++
        "RETURNING version, created_at"
      params := ["version"] }
  | .update =>
    { name := "quire.update-db-version"
      body := "UPDATE quire_db_version SET version = $1 WHERE id"
      params := ["version"] }

/-- The query with the given text. -/
def ofText? (sql : String) : Option VersionQuery :=
  all.find? (·.query.body == sql)

end VersionQuery

end QueryBook
