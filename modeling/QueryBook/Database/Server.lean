import QueryBook.Row
import QueryBook.Text.Split

/-!
A database as its client sees it: it answers statements, keeps the version table, and can take a
transaction back. Its answers to statements on anything else are given beforehand as rules, so that
every answer and every failure of a real server can be played.
-/

namespace QueryBook

/-- A row of the version table as the database stores it, with the time in microseconds since the
start of 2000. -/
structure StoredVersion where
  version : Int64
  createdAt : Int64
  deriving DecidableEq, Repr

/-- A statement other than those on the version table that has run to its end. -/
structure Effect where
  sql : String
  params : List Cell
  deriving DecidableEq, Repr

/-- What a transaction changes and what taking it back restores. -/
structure Contents where
  /-- Whether the version table exists. -/
  hasTable : Bool
  /-- The row of the version table. -/
  stored : Option StoredVersion
  /-- The statements whose effects the database holds, in the order in which they ran. -/
  effects : List Effect
  deriving DecidableEq, Repr

/-- The answer to statements with a certain text. -/
structure Rule where
  sql : String
  /-- How many statements the rule answers; `none` is any number. -/
  uses : Option Nat := none
  /-- The rule lets its statements through: each runs as if there were no rule for it. -/
  passes : Bool := false
  params : List PgType := []
  columns : List Column := []
  rows : List (List Cell) := []
  tag : String := "OK"
  /-- The error that running the statement ends in. -/
  failure : Option ServerError := none
  /-- The error that preparing the statement ends in. -/
  prepareFailure : Option ServerError := none
  deriving DecidableEq, Repr

/-- The first rule with this text that has uses left, unless it lets the statement through, and the
rules after one use of it. -/
def Rule.use (sql : String) : List Rule → Option Rule × List Rule
  | [] => (none, [])
  | rule :: rest =>
    if rule.sql == sql && rule.uses != some 0 then
      (if rule.passes then none else some rule,
        { rule with uses := rule.uses.map (· - 1) } :: rest)
    else
      let (found, rest) := use sql rest
      (found, rule :: rest)

/-- The statements that concern a transaction as a whole. -/
inductive TransactionCommand where
  | start
  | commit
  | rollback
  deriving DecidableEq, Repr

def TransactionCommand.sql : TransactionCommand → String
  | .start => "START TRANSACTION"
  | .commit => "COMMIT"
  | .rollback => "ROLLBACK"

/-- What the database was sent. -/
inductive LogEntry where
  | command (c : TransactionCommand)
  /-- A statement that was sent as it is. -/
  | question (sql : String)
  /-- A statement that was prepared, with its parameters if it was then run. -/
  | statement (sql : String) (params : Option (List Cell))
  deriving DecidableEq, Repr

structure Database where
  contents : Contents
  /-- The contents to go back to, while a transaction is open. -/
  snapshot : Option Contents
  /-- The time that a new row of the version table is given. -/
  now : Int64
  rules : List Rule
  log : List LogEntry
  deriving DecidableEq, Repr

/-- What running a prepared statement will do. -/
inductive Plan where
  /-- Answer as the rule says. -/
  | rule (r : Rule)
  | version (q : VersionQuery)
  /-- Do nothing and say so. -/
  | nothing
  deriving DecidableEq, Repr

structure Prepared where
  sql : String
  params : List PgType
  columns : List Column
  plan : Plan
  deriving DecidableEq, Repr

/-- What a statement that ran returns. -/
structure Reply where
  rows : List Row
  tag : String
  deriving DecidableEq, Repr

/-- The number of rows that a statement touched: the last word of its tag, or 0 if that is not a
number below `2 ^ 64`. -/
def Reply.affected (r : Reply) : Nat :=
  let word := (Text.split (· == ' ') r.tag.toList).getLast?.getD []
  (Text.Decimal.readBelow UInt64.size word).getD 0

namespace StoredVersion

def columns : List Column :=
  [⟨"version", .int8⟩, ⟨"created_at", .timestamptz⟩]

def cells (s : StoredVersion) : List Cell :=
  [some (Wire.intBytes 8 s.version.toInt), some (Wire.intBytes 8 s.createdAt.toInt)]

def row (s : StoredVersion) : Row :=
  ⟨columns, s.cells⟩

end StoredVersion

namespace VersionQuery

/-- The types of the parameters of a query on the version table. -/
def paramTypes : VersionQuery → List PgType
  | .insert | .update => [.int8]
  | _ => []

def columns : VersionQuery → List Column
  | .probe => [⟨"?column?", .bool⟩]
  | .select | .insert => StoredVersion.columns
  | _ => []

/-- The queries that cannot be prepared without the table. -/
def needsTable : VersionQuery → Bool
  | .select | .insert | .update => true
  | _ => false

end VersionQuery

namespace ServerError

def noVersionTable : ServerError :=
  { sqlState := "42P01", message := "relation \"quire_db_version\" does not exist" }

def versionRowExists : ServerError :=
  { sqlState := "23505"
    message := "duplicate key value violates unique constraint \"quire_db_version_pkey\"" }

def versionIsNull : ServerError :=
  { sqlState := "23502"
    message := "null value in column \"version\" of relation \"quire_db_version\" violates " ++
      "not-null constraint" }

end ServerError

namespace Contents

/-- Runs a query on the version table. -/
def runVersion (c : Contents) (now : Int64) (q : VersionQuery) (params : List Cell) :
    Except ServerError (Reply × Contents) :=
  match q with
  | .create => .ok (⟨[], "CREATE TABLE"⟩, { c with hasTable := true })
  | .probe =>
    .ok (⟨[⟨q.columns, [some [if c.hasTable then 1 else 0]]⟩], "SELECT 1"⟩, c)
  | .select =>
    match c.stored with
    | some s => .ok (⟨[s.row], "SELECT 1"⟩, c)
    | none => .ok (⟨[], "SELECT 0"⟩, c)
  | .insert =>
    match c.stored, params with
    | some _, _ => .error .versionRowExists
    | none, [some version] =>
      let s : StoredVersion := ⟨Int64.ofInt (Wire.readInt version), now⟩
      .ok (⟨[s.row], "INSERT 0 1"⟩, { c with stored := some s })
    | none, _ => .error .versionIsNull
  | .update =>
    match c.stored, params with
    | none, _ => .ok (⟨[], "UPDATE 0"⟩, c)
    | some s, [some version] =>
      .ok (⟨[], "UPDATE 1"⟩,
        { c with stored := some { s with version := Int64.ofInt (Wire.readInt version) } })
    | some _, _ => .error .versionIsNull

/-- Adds the effect of a statement. -/
def addEffect (c : Contents) (sql : String) (params : List Cell) : Contents :=
  { c with effects := c.effects ++ [⟨sql, params⟩] }

end Contents

namespace Database

/-- A database with the given contents and answers, in no transaction. -/
def ofContents (contents : Contents) (now : Int64) (rules : List Rule) : Database :=
  { contents := contents, snapshot := none, now := now, rules := rules, log := [] }

def inTransaction (db : Database) : Bool :=
  db.snapshot.isSome

def record (db : Database) (entry : LogEntry) : Database :=
  { db with log := db.log ++ [entry] }

/-- Takes back what the open transaction changed, if there is one. -/
def restore (db : Database) : Database :=
  { db with contents := db.snapshot.getD db.contents, snapshot := none }

/-- Runs a command on the transaction. Starting inside a transaction makes what has been done so far
part of what is kept. A commit that fails takes the transaction back; a rollback that fails leaves
it open. -/
def command (db : Database) (c : TransactionCommand) : Except ServerError Unit × Database :=
  let (rule, rules) := Rule.use c.sql db.rules
  let db := { db.record (.command c) with rules := rules }
  match c, rule.bind (·.failure) with
  | .start, none => (.ok (), { db with snapshot := some db.contents })
  | .start, some e => (.error e, db)
  | .commit, none => (.ok (), { db with snapshot := none })
  | .commit, some e => (.error e, db.restore)
  | .rollback, none => (.ok (), db.restore)
  | .rollback, some e => (.error e, db)

/-- Sends a statement as it is, without preparing it. A rule can make it fail; otherwise it succeeds
and returns nothing. -/
def ask (db : Database) (sql : String) : Option ServerError × Database :=
  let (rule, rules) := Rule.use sql db.rules
  (rule.bind (·.failure), { db.record (.question sql) with rules := rules })

/-- Prepares a statement. A rule with its text comes first, then the queries on the version table;
any other statement takes no parameters, returns nothing and succeeds. -/
def prepare (db : Database) (sql : String) : Except ServerError Prepared × Database :=
  let (rule, rules) := Rule.use sql db.rules
  let db := { db with rules := rules }
  match rule with
  | some r =>
    match r.prepareFailure with
    | some e => (.error e, db)
    | none => (.ok ⟨sql, r.params, r.columns, .rule r⟩, db)
  | none =>
    match VersionQuery.ofText? sql with
    | some q =>
      if q.needsTable && !db.contents.hasTable then (.error .noVersionTable, db)
      else (.ok ⟨sql, q.paramTypes, q.columns, .version q⟩, db)
    | none => (.ok ⟨sql, [], [], .nothing⟩, db)

/-- Runs a prepared statement with parameters that have been encoded. -/
def run (db : Database) (p : Prepared) (params : List Cell) :
    Except ServerError Reply × Database :=
  match p.plan with
  | .rule r =>
    match r.failure with
    | some e => (.error e, db)
    | none =>
      (.ok ⟨r.rows.map (⟨p.columns, ·⟩), r.tag⟩,
        { db with contents := db.contents.addEffect p.sql params })
  | .version q =>
    match db.contents.runVersion db.now q params with
    | .error e => (.error e, db)
    | .ok (reply, contents) => (.ok reply, { db with contents := contents })
  | .nothing => (.ok ⟨[], "OK"⟩, { db with contents := db.contents.addEffect p.sql params })

end Database

end QueryBook
