import QueryBook.Error
import QueryBook.Patch
import QueryBook.VersionTable

/-!
Applying patches through a session. The session gives access to one stored version and can run a
patch; an observer is told what happens to each patch. Patches at or below the stored version are
skipped, the others are run in order, and after each one its version is stored. Where no version is
stored yet, the version of the last patch is: such a database starts out with what all patches lead
to. The first call that fails ends the run.
-/

namespace QueryBook.Migration

/-- What a run needs of whatever it applies patches to. Each call leaves a state behind, whether it
succeeds or fails. -/
structure Session (σ : Type) where
  /-- Makes sure that there is a place for the version. -/
  ensureTable : σ → Except Error Unit × σ
  readVersion : σ → Except Error (Option VersionRow) × σ
  /-- Stores the first version and returns the row that now holds it. -/
  seedVersion : Int64 → σ → Except Error VersionRow × σ
  /-- Runs the statement of a patch. -/
  runPatch : Patch → σ → Except Error Unit × σ
  /-- Replaces the stored version. -/
  storeVersion : Int64 → σ → Except Error Unit × σ

/-- A call on a session. -/
inductive Call where
  | ensure
  | read
  | seed (version : Int64)
  | run (patch : Patch)
  | store (version : Int64)
  deriving DecidableEq, Repr

/-- What an observer is told. -/
inductive Notice where
  /-- The patch is at or below the stored version. -/
  | skipped (patch : Patch)
  /-- The patch is about to run. -/
  | started (patch : Patch)
  /-- The patch has run and its version is the stored one. -/
  | finished (patch : Patch)
  deriving DecidableEq, Repr

/-- One of the things that happen in a run, in the order in which they happen. -/
inductive Event where
  | call (c : Call)
  | notice (n : Notice)
  deriving DecidableEq, Repr

/-- What an observer does when it is told something. It can neither fail nor change what is
applied. -/
abbrev Observer (ω : Type) := Notice → ω → ω

/-- The observer that pays no attention. -/
def Observer.silent {ω : Type} : Observer ω :=
  fun _ o => o

/-- The observer that keeps the notices for which `hears` holds. -/
def Observer.recorder (hears : Notice → Bool) : Observer (List Notice) :=
  fun n heard => if hears n then heard ++ [n] else heard

/-- A reference to a part of a state. The part can be read and replaced, and the rest of the state
stays as it is. -/
structure Reference (α ω : Type) where
  read : α → ω
  write : ω → α → α
  read_write : ∀ w a, read (write w a) = w
  write_read : ∀ a, write (read a) a = a
  write_write : ∀ v w a, write v (write w a) = write v a

/-- The reference to the first part of a pair. -/
def Reference.first {ω β : Type} : Reference (ω × β) ω where
  read := Prod.fst
  write w a := (w, a.2)
  read_write _ _ := rfl
  write_read _ := rfl
  write_write _ _ _ := rfl

/-- The observer that passes each notice on to an observer behind a reference. -/
def Observer.through {α ω : Type} (observer : Observer ω) (ref : Reference α ω) : Observer α
  | .skipped p, a => ref.write (observer (.skipped p) (ref.read a)) a
  | .started p, a => ref.write (observer (.started p) (ref.read a)) a
  | .finished p, a => ref.write (observer (.finished p) (ref.read a)) a

/-- What a run leaves behind. -/
structure Run (σ ω : Type) where
  result : Except Error VersionRow
  session : σ
  observer : ω
  events : List Event

/-- The run with events that came before it. -/
def Run.after {σ ω : Type} (events : List Event) (r : Run σ ω) : Run σ ω :=
  { r with events := events ++ r.events }

section

variable {σ ω : Type}

/-- Applies patches, `current` being the stored row. -/
def applyFrom (session : Session σ) (observer : Observer ω) (current : VersionRow) (s : σ) (o : ω) :
    List Patch → Run σ ω
  | [] => ⟨.ok current, s, o, []⟩
  | p :: rest =>
    if p.version ≤ current.version then
      (applyFrom session observer current s (observer (.skipped p) o) rest).after
        [.notice (.skipped p)]
    else
      let o := observer (.started p) o
      let started := [Event.notice (.started p), .call (.run p)]
      match session.runPatch p s with
      | (.error e, s) => ⟨.error e, s, o, started⟩
      | (.ok (), s) =>
        let stored := started ++ [.call (.store p.version)]
        match session.storeVersion p.version s with
        | (.error e, s) => ⟨.error e, s, o, stored⟩
        | (.ok (), s) =>
          (applyFrom session observer { current with version := p.version } s
            (observer (.finished p) o) rest).after (stored ++ [.notice (.finished p)])

/-- The version of the last patch, or 0 if there is none. -/
def headVersion (patches : List Patch) : Int64 :=
  match patches.getLast? with
  | some p => p.version
  | none => 0

/-- Applies patches in the order given. -/
def applyAll (session : Session σ) (observer : Observer ω) (patches : List Patch) (s : σ) (o : ω) :
    Run σ ω :=
  match session.ensureTable s with
  | (.error e, s) => ⟨.error e, s, o, [.call .ensure]⟩
  | (.ok (), s) =>
    let read := [Event.call .ensure, .call .read]
    match session.readVersion s with
    | (.error e, s) => ⟨.error e, s, o, read⟩
    | (.ok (some current), s) => (applyFrom session observer current s o patches).after read
    | (.ok none, s) =>
      let seeded := read ++ [.call (.seed (headVersion patches))]
      match session.seedVersion (headVersion patches) s with
      | (.error e, s) => ⟨.error e, s, o, seeded⟩
      | (.ok current, s) => (applyFrom session observer current s o patches).after seeded

end

end QueryBook.Migration
