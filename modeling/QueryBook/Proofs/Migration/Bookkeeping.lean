import QueryBook.Migration.Migrator
import QueryBook.Proofs.Catalog.Lookup
import QueryBook.Proofs.Text.Words

/-!
# The catalog of the queries on the version table

The queries on the version table are defined by a text of their own and stand in a catalog of their
own (`load_source`). A session that looks them up there by their names is the session of a migrator
(`sessionOver_bookkeeping`), so that the catalog of a migrator is asked for patches and nothing else.
-/

namespace QueryBook

namespace VersionQuery

/-- The text that defines the queries on the version table. -/
def source : Source where
  name := "db_version.sql"
  text :=
    "-- Bookkeeping for applied patches.\n" ++
    "-- A single row holds the version of the last patch applied.\n" ++
    "\n" ++
    "-- name: quire.create-db-version\n" ++
    "CREATE TABLE IF NOT EXISTS quire_db_version (\n" ++
    "    id BOOLEAN PRIMARY KEY DEFAULT TRUE CHECK (id), -- at most one row\n" ++
    "    version BIGINT NOT NULL,\n" ++
    "    created_at TIMESTAMPTZ NOT NULL DEFAULT now()\n" ++
    ");\n" ++
    "\n" ++
    "-- name: quire.db-version-exists\n" ++
    "SELECT to_regclass('quire_db_version') IS NOT NULL;\n" ++
    "\n" ++
    "-- name: quire.select-db-version\n" ++
    "SELECT version, created_at FROM quire_db_version WHERE id;\n" ++
    "\n" ++
    "-- name: quire.insert-db-version\n" ++
    "INSERT INTO quire_db_version (id, version)\n" ++
    "VALUES (TRUE, :version)\n" ++
    "RETURNING version, created_at;\n" ++
    "\n" ++
    "-- name: quire.update-db-version\n" ++
    "UPDATE quire_db_version SET version = :version WHERE id;\n"

set_option maxRecDepth 8000 in
theorem queries_source : source.queries = .ok (all.map query) := by
  refine Source.eq_ok_of_gives ?_
  unfold Source.queries source
  simp only [String.toList_append]
  repeat rw [Text.toList_of_eq_ofList rfl]
  decide +kernel

theorem pairwise_names : (all.map query).Pairwise fun a b => a.name ≠ b.name := by
  decide +kernel

theorem mem_all (q : VersionQuery) : q ∈ all := by
  cases q <;> decide

end VersionQuery

/-- The catalog of the queries on the version table. -/
def bookkeeping : Catalog :=
  (∅ : Catalog).insertAll (VersionQuery.all.map VersionQuery.query)

theorem load_source : (∅ : Catalog).load [VersionQuery.source] = .ok bookkeeping :=
  Catalog.load_singleton ∅ VersionQuery.queries_source

theorem lookup_bookkeeping (q : VersionQuery) : bookkeeping.lookup q.query.name = .ok q.query :=
  Catalog.lookup_eq_ok_iff.2
    (Catalog.get?_insertAll_of_mem VersionQuery.pairwise_names
      (List.mem_map_of_mem (VersionQuery.mem_all q)))

namespace Migrator

open Migration (Session)

/-- The session of a migrator with the queries on the version table looked up in a catalog. -/
def sessionOver (m : Migrator) (books : Catalog) : Session Database where
  ensureTable db := dropValue (books.execute VersionQuery.create.query.name ∅ db)
  readVersion db := books.fetchOptional VersionRow.reader VersionQuery.select.query.name ∅ db
  seedVersion version db :=
    books.fetchOne VersionRow.reader VersionQuery.insert.query.name (VersionQuery.argument version)
      db
  runPatch patch db := dropValue (m.catalog.execute patch.name ∅ db)
  storeVersion version db :=
    dropValue (books.execute VersionQuery.update.query.name (VersionQuery.argument version) db)

/-- The stored version, asked for with the queries of a catalog. -/
def currentVersionOver (books : Catalog) (db : Database) :
    Except Error (Option VersionRow) × Database :=
  match books.fetchOptional (.single .bool) VersionQuery.probe.query.name ∅ db with
  | (.error e, db) => (.error e, db)
  | (.ok found, db) =>
    if found.getD false then books.fetchOptional VersionRow.reader VersionQuery.select.query.name ∅ db
    else (.ok none, db)

theorem withQuery_bookkeeping {α : Type} (q : VersionQuery)
    (run : Query → Database → Except Error α × Database) (db : Database) :
    bookkeeping.withQuery q.query.name run db = run q.query db := by
  unfold Catalog.withQuery
  rw [lookup_bookkeeping]

theorem sessionOver_bookkeeping (m : Migrator) : m.sessionOver bookkeeping = m.session := by
  unfold sessionOver session Catalog.execute Catalog.fetchOptional Catalog.fetchOne
  simp only [withQuery_bookkeeping]

theorem currentVersionOver_bookkeeping (db : Database) :
    currentVersionOver bookkeeping db = currentVersion db := by
  unfold currentVersionOver currentVersion tableExists Catalog.fetchOptional
  simp only [withQuery_bookkeeping]
  generalize VersionQuery.probe.query.fetchOptional (.single .bool) ∅ db = outcome
  obtain ⟨result, after⟩ := outcome
  rcases result with e | found
  · rfl
  · cases found with
    | none => rfl
    | some exists_ => cases exists_ <;> rfl

end Migrator

end QueryBook
