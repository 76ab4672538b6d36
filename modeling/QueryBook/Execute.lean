import QueryBook.Catalog
import QueryBook.Database.Client

/-!
Running queries on a database: the query is found in a catalog, its arguments are bound, its
statement is sent, and the rows that come back are read. The same functions serve inside and outside
of a transaction.
-/

namespace QueryBook

/-- Reads rows one after another; the first that cannot be read decides. -/
def readRows {α : Type} (reader : RowReader α) : List Row → Except ClientError (List α)
  | [] => .ok []
  | row :: rest =>
    match reader row with
    | .error e => .error e
    | .ok a =>
      match readRows reader rest with
      | .error e => .error e
      | .ok values => .ok (a :: values)

namespace Query

variable {α : Type}

/-- Binds the arguments and sends the statement. Without a value for every parameter nothing is
sent. -/
def submit (q : Query) (args : Arguments) (db : Database) : Except Error Reply × Database :=
  match q.bind args with
  | .error missing => (.error (.missingArgument missing), db)
  | .ok values =>
    let (result, db) := db.submit q.body values
    (result.mapError (.execute q.name), db)

/-- Runs the query for its effect and returns the number of rows that it touched. -/
def execute (q : Query) (args : Arguments) (db : Database) : Except Error Nat × Database :=
  let (result, db) := q.submit args db
  (result.map (·.affected), db)

/-- What all rows of a reply read as. All have arrived before any is read. -/
def allOf (q : Query) (reader : RowReader α) (reply : Reply) : Except Error (List α) :=
  if reply.rows.all Row.isWellFormed then (readRows reader reply.rows).mapError (.decode q.name)
  else .error (.execute q.name .malformedRow)

/-- The only row of a reply, if it has one. Rows after the second do not matter. -/
def onlyRow : List Row → Except ClientError (Option Row)
  | [] => .ok none
  | [row] => if row.isWellFormed then .ok (some row) else .error .malformedRow
  | first :: second :: _ =>
    .error (if first.isWellFormed && second.isWellFormed then .rowCount else .malformedRow)

/-- What the only row of a reply reads as. That there is a second row is found before any row is
read. -/
def optionalOf (q : Query) (reader : RowReader α) (reply : Reply) : Except Error (Option α) :=
  match onlyRow reply.rows with
  | .error e => .error (.execute q.name e)
  | .ok none => .ok none
  | .ok (some row) => ((reader row).map some).mapError (.decode q.name)

/-- Runs the query and reads every row. -/
def fetchAll (q : Query) (reader : RowReader α) (args : Arguments) (db : Database) :
    Except Error (List α) × Database :=
  let (result, db) := q.submit args db
  (result.bind (q.allOf reader), db)

/-- Runs the query and reads its row, if there is one. -/
def fetchOptional (q : Query) (reader : RowReader α) (args : Arguments) (db : Database) :
    Except Error (Option α) × Database :=
  let (result, db) := q.submit args db
  (result.bind (q.optionalOf reader), db)

/-- Runs the query and reads its row, which there has to be. -/
def fetchOne (q : Query) (reader : RowReader α) (args : Arguments) (db : Database) :
    Except Error α × Database :=
  let (result, db) := q.fetchOptional reader args db
  (result.bind fun
    | some a => .ok a
    | none => .error (.rowNotFound q.name), db)

end Query

namespace Catalog

variable {α : Type}

/-- The query of this name. -/
def lookup (c : Catalog) (name : String) : Except Error Query :=
  match c.get? name with
  | some q => .ok q
  | none => .error (.queryNotFound name)

/-- Runs an operation on the query of this name. Without one nothing is sent. -/
def withQuery (c : Catalog) (name : String) (run : Query → Database → Except Error α × Database)
    (db : Database) : Except Error α × Database :=
  match c.lookup name with
  | .error e => (.error e, db)
  | .ok q => run q db

def execute (c : Catalog) (name : String) (args : Arguments) (db : Database) :
    Except Error Nat × Database :=
  c.withQuery name (fun q db => q.execute args db) db

def fetchAll (c : Catalog) (reader : RowReader α) (name : String) (args : Arguments)
    (db : Database) : Except Error (List α) × Database :=
  c.withQuery name (fun q db => q.fetchAll reader args db) db

def fetchOptional (c : Catalog) (reader : RowReader α) (name : String) (args : Arguments)
    (db : Database) : Except Error (Option α) × Database :=
  c.withQuery name (fun q db => q.fetchOptional reader args db) db

def fetchOne (c : Catalog) (reader : RowReader α) (name : String) (args : Arguments)
    (db : Database) : Except Error α × Database :=
  c.withQuery name (fun q db => q.fetchOne reader args db) db

end Catalog

end QueryBook
