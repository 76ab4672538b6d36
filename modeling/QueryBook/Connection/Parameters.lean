import QueryBook.Connection.IpAddress
import QueryBook.Text.Utf8

/-!
The parameters of a connection: where the database may be, and how the client is to present itself.
Every form of connection string is read into them, one parameter after another.
-/

namespace QueryBook.Connection

/-- Where a server may be. -/
inductive Host where
  /-- In a directory of this machine, which holds the server's socket. -/
  | socket (directory : List UInt8)
  /-- At a name or an address of the network. -/
  | network (hostName : String)
  deriving DecidableEq, Repr

/-- A host from text: a directory begins with a slash. -/
def Host.ofText (s : String) : Host :=
  if s.toList.head? == some '/' then .socket (Text.Utf8.encode s) else .network s

structure Parameters where
  hosts : List Host := []
  /-- Numerical addresses, which are used in place of the hosts. -/
  addresses : List String := []
  ports : List Nat := []
  /-- The other parameters with their values, the latest first. -/
  others : List (String × String) := []
  deriving DecidableEq, Repr

/-- The values that a parameter may have. -/
inductive Domain where
  | anyText
  | oneOf (words : List String)
  /-- A whole number of 64 bits with an optional sign. -/
  | signed
  /-- A whole number below a limit. -/
  | below (limit : Nat)
  deriving DecidableEq, Repr

def Domain.contains (value : String) : Domain → Bool
  | .anyText => true
  | .oneOf words => words.contains value
  | .signed => (Text.Decimal.readSigned 0x8000000000000000 value.toList).isSome
  | .below limit => (Text.Decimal.readBelow limit value.toList).isSome

namespace Parameters

/-- The parameters besides those that say where the server is. -/
def domains : List (String × Domain) :=
  [("user", .anyText),
   ("password", .anyText),
   ("dbname", .anyText),
   ("options", .anyText),
   ("application_name", .anyText),
   ("sslmode", .oneOf ["disable", "prefer", "require"]),
   ("sslnegotiation", .oneOf ["postgres", "direct"]),
   ("connect_timeout", .signed),
   ("tcp_user_timeout", .signed),
   ("keepalives", .below UInt64.size),
   ("keepalives_idle", .signed),
   ("keepalives_interval", .signed),
   ("keepalives_retries", .below UInt32.size),
   ("target_session_attrs", .oneOf ["any", "read-write", "read-only"]),
   ("channel_binding", .oneOf ["disable", "prefer", "require"]),
   ("load_balance_hosts", .oneOf ["disable", "random"])]

def defaultPort : Nat := 5432

/-- A port; an empty one is the default. -/
def port? (s : List Char) : Option Nat :=
  if s.isEmpty then some defaultPort else Text.Decimal.readBelow UInt16.size s

/-- The parameters with one more. Hosts, addresses and ports are lists with commas and add up; of
the others the latest counts. There is no result for a parameter or a value that is not known. -/
def set? (p : Parameters) (key value : String) : Option Parameters :=
  let items := Text.split (· == ',') value.toList
  match key with
  | "host" => some { p with hosts := p.hosts ++ items.map fun s => .ofText (String.ofList s) }
  | "hostaddr" =>
    if items.all isIpAddress then
      some { p with addresses := p.addresses ++ items.map String.ofList }
    else none
  | "port" => (items.mapM port?).map fun ports => { p with ports := p.ports ++ ports }
  | _ =>
    match domains.lookup key with
    | none => none
    | some domain =>
      if domain.contains value then some { p with others := (key, value) :: p.others } else none

/-- The value of a parameter other than those that say where the server is. -/
def get? (p : Parameters) (key : String) : Option String :=
  p.others.lookup key

/-- A host and a port at which a server may be. -/
structure Place where
  host : Host
  port : Nat
  deriving DecidableEq, Repr

/-- The places to try, in order. There have to be some; addresses have to be as many as hosts if
there are both; and there has to be one port for all places, or one for each. -/
def places? (p : Parameters) : Option (List Place) :=
  let hosts := if p.addresses.isEmpty then p.hosts else p.addresses.map .network
  if hosts.isEmpty then none
  else if !p.hosts.isEmpty && p.hosts.length != hosts.length then none
  else match p.ports with
    | [] => some (hosts.map (⟨·, defaultPort⟩))
    | [port] => some (hosts.map (⟨·, port⟩))
    | ports =>
      if ports.length == hosts.length then some (List.zipWith Place.mk hosts ports) else none

end Parameters

end QueryBook.Connection
