import QueryBook.Execute
import QueryBook.Migration.Session

/-!
Applying the patches of a catalog to a database. All of it happens in one transaction: either every
pending patch is applied and the new version stored, or nothing is.
-/

namespace QueryBook

namespace VersionQuery

/-- The arguments of the queries that store a version. -/
def argument (version : Int64) : Arguments :=
  (∅ : Arguments).insert "version" (.int64 version)

end VersionQuery

/-- The patches of a catalog, ready to be applied. -/
structure Migrator where
  catalog : Catalog
  /-- In ascending order of their versions. -/
  patches : List Patch

namespace Migrator

open Migration (Session Observer Run applyAll headVersion)

/-- Finds the patches of a catalog. -/
def ofCatalog (catalog : Catalog) (patchPrefix : String) : Except LoadError Migrator :=
  (Patch.discover catalog patchPrefix).map fun patches => ⟨catalog, patches⟩

/-- The version of the newest patch. -/
def latestVersion (m : Migrator) : Int64 :=
  headVersion m.patches

/-- The result without its value. -/
def dropValue {α : Type} (r : Except Error α × Database) : Except Error Unit × Database :=
  (r.1.map fun _ => (), r.2)

/-- The session inside a transaction of a database: the version is in the version table, and the
statement of a patch is the query of its name in the catalog. -/
def session (m : Migrator) : Session Database where
  ensureTable db := dropValue (VersionQuery.create.query.execute ∅ db)
  readVersion db := VersionQuery.select.query.fetchOptional VersionRow.reader ∅ db
  seedVersion version db :=
    VersionQuery.insert.query.fetchOne VersionRow.reader (VersionQuery.argument version) db
  runPatch patch db := dropValue (m.catalog.execute patch.name ∅ db)
  storeVersion version db :=
    dropValue (VersionQuery.update.query.execute (VersionQuery.argument version) db)

/-- What applying patches leaves behind. -/
structure Applied (ω : Type) where
  result : Except Error VersionRow
  database : Database
  observer : ω

/-- Applies patches through a session in one transaction. If anything but the commit fails, the
transaction is taken back. -/
def applyThrough {ω : Type} (session : Session Database) (observer : Observer ω)
    (patches : List Patch) (o : ω) (db : Database) : Applied ω :=
  match db.beginTransaction with
  | (.error e, db) => ⟨.error e, db, o⟩
  | (.ok (), db) =>
    let run := applyAll session observer patches db o
    match run.result with
    | .error e => ⟨.error e, run.session.abandon, run.observer⟩
    | .ok row =>
      match run.session.commit with
      | (.error e, db) => ⟨.error e, db, run.observer⟩
      | (.ok (), db) => ⟨.ok row, db, run.observer⟩

/-- Applies every pending patch in one transaction. -/
def apply {ω : Type} (m : Migrator) (observer : Observer ω) (o : ω) (db : Database) : Applied ω :=
  applyThrough m.session observer m.patches o db

/-- Whether the version table exists. -/
def tableExists (db : Database) : Except Error Bool × Database :=
  let (result, db) := VersionQuery.probe.query.fetchOptional (.single .bool) ∅ db
  (result.map (·.getD false), db)

/-- The stored version, or `none` if patches were never applied. -/
def currentVersion (db : Database) : Except Error (Option VersionRow) × Database :=
  match tableExists db with
  | (.error e, db) => (.error e, db)
  | (.ok false, db) => (.ok none, db)
  | (.ok true, db) => VersionQuery.select.query.fetchOptional VersionRow.reader ∅ db

/-- The patches newer than the stored version. There are none for a database to which no patch was
ever applied, because the first time it starts at the latest version. -/
def pending (m : Migrator) (db : Database) : Except Error (List Patch) × Database :=
  let (result, db) := currentVersion db
  (result.map fun
    | some current => m.patches.filter (current.version < ·.version)
    | none => [], db)

end Migrator

/-- Finds the patches of a catalog and applies them. -/
def Catalog.applyPatches {ω : Type} (catalog : Catalog) (patchPrefix : String)
    (observer : Migration.Observer ω) (o : ω) (db : Database) : Migrator.Applied ω :=
  match Migrator.ofCatalog catalog patchPrefix with
  | .error e => ⟨.error (.load e), db, o⟩
  | .ok m => m.apply observer o db

end QueryBook
