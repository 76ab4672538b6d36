import QueryBook.Database.Server
import QueryBook.Error

/-!
The client's side of a connection: it prepares a statement, learns the types of its parameters,
encodes the values and runs it; and it opens and ends transactions.
-/

namespace QueryBook.Database

/-- The character that ends a text on the wire, so that no statement can hold it. -/
def nul : Char := Char.ofNat 0

/-- Encodes values for parameters of the given types; the first value that cannot be encoded
decides. -/
def encodeFrom (index : Nat) : List PgType → List Value → Except ClientError (List Cell)
  | type :: types, value :: values =>
    match value.encode type with
    | .error e => .error (.parameter index e)
    | .ok cell =>
      match encodeFrom (index + 1) types values with
      | .error e => .error e
      | .ok cells => .ok (cell :: cells)
  | _, _ => .ok []

/-- Encodes the values for all parameters of a statement. -/
def encodeParams (types : List PgType) (values : List Value) : Except ClientError (List Cell) :=
  if types.length = values.length then encodeFrom 0 types values
  else .error (.parameterCount types.length values.length)

/-- Sends a statement with values for its placeholders. -/
def submit (db : Database) (sql : String) (values : List Value) :
    Except ClientError Reply × Database :=
  if sql.toList.contains nul then (.error .nulInStatement, db)
  else match db.prepare sql with
    | (.error e, db) => (.error (.server e), db.record (.statement sql none))
    | (.ok prepared, db) =>
      match encodeParams prepared.params values with
      | .error e => (.error e, db.record (.statement sql none))
      | .ok cells =>
        let (result, db) := (db.record (.statement sql (some cells))).run prepared cells
        (result.mapError .server, db)

/-- Takes the open transaction back. Whether that succeeds is not asked. -/
def abandon (db : Database) : Database :=
  (db.command .rollback).2

/-- Opens a transaction. If that fails, it is taken back in case the server has opened it all the
same. -/
def beginTransaction (db : Database) : Except Error Unit × Database :=
  match db.command .start with
  | (.ok (), db) => (.ok (), db)
  | (.error e, db) => (.error (.transaction .begin (.server e)), db.abandon)

def commit (db : Database) : Except Error Unit × Database :=
  let (result, db) := db.command .commit
  (result.mapError fun e => .transaction .commit (.server e), db)

def rollback (db : Database) : Except Error Unit × Database :=
  let (result, db) := db.command .rollback
  (result.mapError fun e => .transaction .rollback (.server e), db)

/-- The client goes away; a transaction that is still open is taken back. -/
def disconnect (db : Database) : Database :=
  db.restore

end QueryBook.Database
