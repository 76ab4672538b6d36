import QueryBook.Migration.Session

/-!
A session that keeps its version in memory and runs no statements. One call of it can be made to
fail, and seeding can be made to store another version than the one asked for.
-/

namespace QueryBook.Migration

/-- Kinds of calls on a session. -/
inductive CallKind where
  | ensure
  | read
  | seed
  | run
  | store
  deriving DecidableEq, Repr

/-- Makes the calls of one kind fail: those with the given version, or all of them. -/
structure Fault where
  kind : CallKind
  version : Option Int64
  error : Error

/-- The kind of a call and its version, if it has one. -/
def Call.key : Call → CallKind × Option Int64
  | .ensure => (.ensure, none)
  | .read => (.read, none)
  | .seed version => (.seed, some version)
  | .run patch => (.run, some patch.version)
  | .store version => (.store, some version)

/-- Whether a call fails. A fault with a version does not hit calls that have none. -/
def Fault.hits (f : Fault) (c : Call) : Bool :=
  c.key.1 == f.kind && (f.version.isNone || f.version == c.key.2)

structure Memory where
  stored : Option VersionRow
  /-- The time that a first row is given. -/
  now : Instant
  /-- The version that seeding stores in place of the one asked for. -/
  seeds : Option Int64 := none
  fault : Option Fault := none

namespace Memory

/-- Makes a call that has no effect if it fails. -/
def guarded {α : Type} (c : Call) (act : Memory → α × Memory) (m : Memory) :
    Except Error α × Memory :=
  match m.fault.filter (·.hits c) with
  | some f => (.error f.error, m)
  | none =>
    let (a, m) := act m
    (.ok a, m)

def seed (version : Int64) (m : Memory) : VersionRow × Memory :=
  let row : VersionRow := ⟨m.seeds.getD version, m.now⟩
  (row, { m with stored := some row })

/-- Replaces the version and keeps the time. -/
def store (version : Int64) (m : Memory) : Unit × Memory :=
  ((), { m with stored := m.stored.map fun row => { row with version := version } })

def session : Session Memory where
  ensureTable := guarded .ensure fun m => ((), m)
  readVersion := guarded .read fun m => (m.stored, m)
  seedVersion version := guarded (.seed version) (seed version)
  runPatch patch := guarded (.run patch) fun m => ((), m)
  storeVersion version := guarded (.store version) (store version)

end Memory

end QueryBook.Migration
