import QueryBook.Connection.Parameters

/-!
Connection strings such as `postgres://me@localhost:5432/db?connect_timeout=10`: who connects, the
hosts with their ports, the database, and further parameters. Every part may be left out, and every
part is percent-coded.
-/

namespace QueryBook.Connection.Url

/-- The text after the scheme, if this is a URL of a database. -/
def afterScheme? (s : List Char) : Option (List Char) :=
  List.isPrefixOf? "postgres://".toList s <|> List.isPrefixOf? "postgresql://".toList s

/-- A text from its percent-coded form. -/
def text? (s : List Char) : Option String :=
  (Text.Utf8.decode (Text.Percent.decode s)).toOption

/-- A host from its percent-coded form. The name of a directory need not be UTF-8. -/
def host? (s : List Char) : Option Host :=
  let bytes := Text.Percent.decode s
  if bytes.head? == some 0x2F then some (.socket bytes)
  else (Text.Utf8.decode bytes).toOption.map .network

/-- A key and a value with the first equals sign between them. -/
def cutAtEquals? (s : List Char) : Option (List Char × List Char) :=
  match s.span (· != '=') with
  | (_, []) => none
  | (key, _ :: value) => some (key, value)

/-- The host and the port in one item of the list of hosts. An address of version 6 stands in
brackets. -/
def cutAtPort? (item : List Char) : Option (List Char × List Char) :=
  let port := Text.Decimal.digits Parameters.defaultPort
  match item with
  | '[' :: rest =>
    match rest.span (· != ']') with
    | (_, []) => none
    | (host, [_]) => some (host, port)
    | (host, _ :: ':' :: port) => some (host, port)
    | _ => none
  | _ =>
    match item.span (· != ':') with
    | (host, []) => some (host, port)
    | (host, _ :: port) => some (host, port)

/-- Adds the one who connects. A password is not looked at. -/
def addUser (p : Parameters) (credentials : List Char) : Option Parameters :=
  (text? (credentials.takeWhile (· != ':'))).bind (p.set? "user")

def addHost (p : Parameters) (s : List Char) : Option Parameters :=
  (host? s).map fun host => { p with hosts := p.hosts ++ [host] }

/-- Adds an item of the list of hosts, which always has a port. -/
def addItem (p : Parameters) (item : List Char) : Option Parameters := do
  let (host, port) ← cutAtPort? item
  let p ← addHost p host
  p.set? "port" (← text? port)

/-- Adds a parameter from the end of a URL, where a host is a single one even if it has commas. -/
def addParameter (p : Parameters) (s : List Char) : Option Parameters := do
  let (key, value) ← cutAtEquals? s
  let key ← text? key
  if key == "host" then addHost p value
  else p.set? key (← text? value)

/-- The parameters after the question mark. An ampersand may end the last one. -/
def queryItems (s : List Char) : List (List Char) :=
  let items := Text.split (· == '&') s
  match items.getLast? with
  | some [] => items.dropLast
  | _ => items

/-- The parameters that a URL gives after its scheme. -/
def read (s : List Char) : Option Parameters := do
  let (p, s) ← match s.span (· != '@') with
    | (_, []) => some ({}, s)
    | (credentials, _ :: s) => (addUser {} credentials).map (·, s)
  let (hosts, s) := s.span fun c => c != '/' && c != '?'
  let p ← if hosts.isEmpty then some p else (Text.split (· == ',') hosts).foldlM addItem p
  let (path, query) := s.span (· != '?')
  let name := path.drop 1
  let p ← if name.isEmpty then some p else (text? name).bind (p.set? "dbname")
  (queryItems (query.drop 1)).foldlM addParameter p

end QueryBook.Connection.Url
