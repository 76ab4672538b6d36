import QueryBook.Connection.KeyValue
import QueryBook.Connection.Url
import QueryBook.Database.Server

/-!
Connecting to a database: the connection string is read, and the places that it names are tried in
turn. A server lets a client in that asks for nothing it cannot give.
-/

namespace QueryBook

/-- Why no connection to a database comes about. -/
inductive ConnectError where
  /-- The connection string cannot be read. -/
  | malformed
  /-- It does not say where the database is, or says so in two ways that do not fit. -/
  | noPlaces
  /-- Nothing answers there. -/
  | unreachable
  /-- The client asks for encryption, which it does not have. -/
  | noEncryption
  /-- A parameter for the server holds a NUL. -/
  | nulInParameter
  /-- The client asks for more proof of the server's identity than there is. -/
  | noProof
  /-- The server does not answer the question whether it takes changes. -/
  | noAnswer
  /-- The server refuses that question. -/
  | refused (e : ServerError)
  deriving DecidableEq, Repr

def ConnectError.message : ConnectError → String
  | .malformed => "invalid connection string"
  | .noPlaces => "invalid configuration"
  | .unreachable => "error connecting to server"
  | .noEncryption => "error performing TLS handshake"
  | .nulInParameter => "error encoding message to server"
  | .noProof => "authentication error"
  | .noAnswer => "unexpected message from server"
  | .refused _ => "db error"

namespace Connection

/-- The parameters that a connection string gives, in either form. -/
def readParameters (text : String) : Option Parameters :=
  match Url.afterScheme? text.toList with
  | some rest => Url.read rest
  | none => KeyValue.read text.toList

/-- A database and where it is reached. -/
structure Endpoint where
  /-- Whether the server listens on a socket at a path. -/
  listensAt : String → Bool
  database : Database

/-- The longest path that a socket can have, in bytes. -/
def maxSocketPathBytes : Nat := 107

/-- The path of a server's socket in a directory. -/
def socketPath (directory : String) (port : Nat) : String :=
  directory ++ (if directory.toList.getLast? == some '/' then "" else "/") ++ ".s.PGSQL." ++
    Text.Decimal.ofNat port

/-- Whether the server is at a place. -/
def Endpoint.isAt (e : Endpoint) (place : Parameters.Place) : Bool :=
  match place.host with
  | .network _ => false
  | .socket directory =>
    match Text.Utf8.decode directory with
    | .error _ => false
    | .ok directory =>
      let path := socketPath directory place.port
      path.utf8ByteSize ≤ maxSocketPathBytes && e.listensAt path

/-- The parameters that the server is told when a client comes. -/
def toldParameters : List String :=
  ["user", "dbname", "options", "application_name"]

/-- The question that tells whether a session takes changes. -/
def readOnlyQuestion : String := "SHOW transaction_read_only"

/-- What happens at the server. A client that wants a session of a certain kind asks which kind it
has; the server gives no answer to that. -/
def enter (p : Parameters) (db : Database) : Except ConnectError Unit × Database :=
  let asksFor := fun key value => p.get? key == some value
  if asksFor "sslmode" "require" then (.error .noEncryption, db)
  else if toldParameters.any fun key => ((p.get? key).getD "").toList.contains (Char.ofNat 0) then
    (.error .nulInParameter, db)
  else if asksFor "channel_binding" "require" then (.error .noProof, db)
  else if asksFor "target_session_attrs" "read-write" ||
      asksFor "target_session_attrs" "read-only" then
    match db.ask readOnlyQuestion with
    | (some e, db) => (.error (.refused e), db)
    | (none, db) => (.error .noAnswer, db)
  else (.ok (), db)

/-- Tries places in turn until one lets the client in. If none does, the last failure counts. -/
def tryPlaces (p : Parameters) (e : Endpoint) (failure : ConnectError) :
    List Parameters.Place → Database → Except ConnectError Unit × Database
  | [], db => (.error failure, db)
  | place :: rest, db =>
    if e.isAt place then
      match enter p db with
      | (.ok (), db) => (.ok (), db)
      | (.error failure, db) => tryPlaces p e failure rest db
    else tryPlaces p e .unreachable rest db

/-- Connects to the only server there is, if there is one. A failure comes with what is left of the
database. -/
def connect (text : String) (server : Option Endpoint) :
    Except (ConnectError × Option Database) Database :=
  let untouched := server.map (·.database)
  match readParameters text with
  | none => .error (.malformed, untouched)
  | some p =>
    match p.places?, server with
    | none, _ => .error (.noPlaces, untouched)
    | some _, none => .error (.unreachable, none)
    | some places, some e =>
      match tryPlaces p e .unreachable places e.database with
      | (.ok (), db) => .ok db
      | (.error failure, db) => .error (failure, some db)

end Connection

end QueryBook
