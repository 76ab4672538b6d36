import QueryBook.Console.Style
import QueryBook.Console.Usage
import QueryBook.Connection.Attempt
import QueryBook.Migration.Migrator

/-!
What the commands do and print. Standard output is built up as a text, in the order in which things
happen.
-/

namespace QueryBook.Console

/-- Why a command fails. -/
inductive Failure where
  | missingDatabaseUrl
  | connect (e : ConnectError)
  | load (e : LoadError)
  | error (e : Error)
  deriving DecidableEq

def Failure.message : Failure → String
  | .missingDatabaseUrl => Settings.missingDatabaseUrl
  | .connect e => "failed to connect to database: " ++ e.message
  | .load e => e.message
  | .error e => e.message

/-- What a command leaves behind. -/
structure Report where
  out : String
  failure : Option Failure
  /-- The database, if there is one, after the command. -/
  database : Option Database

def Report.err (r : Report) : String :=
  match r.failure with
  | none => ""
  | some f => bold (red "error:") ++ " " ++ f.message ++ "\n"

def Report.exitCode (r : Report) : Nat :=
  if r.failure.isSome then 1 else 0

/-- What a command has to work with. -/
structure Machine where
  settings : Settings
  /-- The sources in the directory that the settings name. -/
  sources : Except LoadError (List Source)
  /-- The only database there is, if there is one. -/
  server : Option Connection.Endpoint

namespace Machine

def failed (m : Machine) (f : Failure) : Report :=
  ⟨"", some f, m.server.map (·.database)⟩

def catalog (m : Machine) : Except LoadError Catalog :=
  m.sources.bind (∅ : Catalog).load

def migrator (m : Machine) : Except LoadError Migrator :=
  m.catalog.bind fun c => Migrator.ofCatalog c m.settings.patchPrefix

/-- The database that the settings lead to. -/
def connect (m : Machine) : Except Report Database :=
  match m.settings.databaseUrl with
  | none => .error (m.failed .missingDatabaseUrl)
  | some url =>
    match Connection.connect url m.server with
    | .error (e, db) => .error ⟨"", some (.connect e), db⟩
    | .ok db => .ok db

/-- The patches to apply and the database to apply them to. The sources are looked at first. -/
def prepare (m : Machine) : Except Report (Migrator × Database) :=
  match m.migrator with
  | .error e => .error (m.failed (.load e))
  | .ok migrator => m.connect.map fun db => (migrator, db)

end Machine

def versionText (version : Int64) : String :=
  Text.Decimal.ofInt version.toInt

/-! ## Applying patches -/

/-- What has been printed about patches so far. -/
structure Progress where
  out : String := ""
  /-- The number of patches that have been applied. -/
  applied : Nat := 0
  /-- Whether a patch has been started and not finished. -/
  inProgress : Bool := false
  deriving DecidableEq, Repr

/-- Prints what happens to each patch. The line of a patch that is applied stays open until it has
finished. -/
def Progress.observer : Migration.Observer Progress
  | .skipped p, s => { s with out := s.out ++ "  " ++ dim "Skipped" ++ " " ++ dim p.name ++ "\n" }
  | .started p, s =>
    { s with
      out := s.out ++ "  " ++ cyan "Applying" ++ " " ++ p.name ++ " "
      inProgress := true }
  | .finished _, s =>
    { out := s.out ++ green "ok" ++ "\n", applied := s.applied + 1, inProgress := false }

/-- After a commit that failed the outcome is not known: the server may have committed. -/
def isCommitFailure : Error → Bool
  | .transaction .commit _ => true
  | _ => false

/-- What is printed after patches have been applied. -/
def successText (applied : Nat) (row : VersionRow) : String :=
  (if applied = 0 then green "No pending patches."
    else green s!"Applied {Text.Decimal.ofNat applied} patch(es)") ++
    s!"\nDatabase version: {bold (versionText row.version)}\n"

/-- What is printed when applying patches has failed. -/
def failureText (inProgress : Bool) (e : Error) : String :=
  (if inProgress then red "failed" ++ "\n" else "") ++
    (if isCommitFailure e then yellow "Commit failed, check the database version before retrying."
      else yellow "Rolled back, nothing was applied.") ++ "\n"

/-- Applies pending patches. -/
def migrate (m : Machine) : Report :=
  match m.prepare with
  | .error report => report
  | .ok (migrator, db) =>
    let applied := migrator.apply Progress.observer {} db
    let progress := applied.observer
    let database := some applied.database.disconnect
    match applied.result with
    | .ok row => ⟨progress.out ++ successText progress.applied row, none, database⟩
    | .error e => ⟨progress.out ++ failureText progress.inProgress e, some (.error e), database⟩

/-! ## Status -/

/-- What is printed for a database to which no patch was ever applied. -/
def untouchedText (latest : Int64) : String :=
  yellow "No patches applied yet." ++
    s!"\nRunning `quire migrate` will start this database at version {versionText latest}.\n"

def currentText (current : VersionRow) (latest : Int64) : String :=
  s!"Database version: {bold (versionText current.version)} " ++
    dim s!"(since {current.createdAt.text})" ++
    s!"\nLatest patch:     {versionText latest}\n"

def pendingText (patches : List Patch) : String :=
  if patches.isEmpty then green "Up to date." ++ "\n"
  else
    "\n" ++ yellow s!"{Text.Decimal.ofNat patches.length} pending patch(es):" ++ "\n" ++
      String.join (patches.map fun p => "  " ++ yellow "○" ++ " " ++ p.name ++ "\n")

/-- Shows the stored version and the pending patches. -/
def status (m : Machine) : Report :=
  match m.prepare with
  | .error report => report
  | .ok (migrator, db) =>
    match Migrator.currentVersion db with
    | (.error e, db) => ⟨"", some (.error e), some db.disconnect⟩
    | (.ok none, db) => ⟨untouchedText migrator.latestVersion, none, some db.disconnect⟩
    | (.ok (some current), db) =>
      let out := currentText current migrator.latestVersion
      match migrator.pending db with
      | (.error e, db) => ⟨out, some (.error e), some db.disconnect⟩
      | (.ok patches, db) => ⟨out ++ pendingText patches, none, some db.disconnect⟩

/-! ## Listing queries -/

/-- A query as it is listed: whether it is a patch, its name and its parameters. -/
def queryText (patchPrefix : String) (statements : Bool) (q : Query) : String :=
  let tag :=
    if (Patch.rest? patchPrefix q.name).isSome then magenta "patch" else blue "query"
  let params := ", ".intercalate (q.params.map (":" ++ ·))
  tag ++ " " ++ bold q.name ++ (if q.params.isEmpty then "" else " " ++ dim params) ++ "\n" ++
    (if statements then "      " ++ dim q.body ++ "\n" else "")

/-- Lists the queries in the order of their names. -/
def listQueries (m : Machine) (statements : Bool) : Report :=
  match m.catalog with
  | .error e => m.failed (.load e)
  | .ok c =>
    let out :=
      if c.isEmpty then s!"No queries found in {m.settings.queriesDir}\n"
      else String.join (c.toList.map (queryText m.settings.patchPrefix statements))
    ⟨out, none, m.server.map (·.database)⟩

def Command.run (m : Machine) : Command → Report
  | .migrate => Console.migrate m
  | .status => Console.status m
  | .queries statements => Console.listQueries m statements

end QueryBook.Console
