import Mathlib
import QueryBook.Files.Sources
import QueryBook.Proofs.Catalog.Lookup
import QueryBook.Proofs.Text.Utf8

/-!
# A catalog over a history of calls

Sources and directories are loaded into a catalog one after another, and any of these calls may
fail. Main statement: a name stands for its last definition in the calls that succeed, and a call
that fails changes nothing (`afterAll_lastWins`). A directory is read as a whole before any of its
files is parsed, so that a file that cannot be read comes before one that cannot be parsed
(`loadDirectory_unreadableFirst`).
-/

namespace QueryBook

/-! ## What sources say -/

namespace Source

/-- What is wrong with a source. -/
def error? (s : Source) : Option LoadError :=
  match s.queries with
  | .error e => some e
  | .ok _ => none

/-- What a source defines, if nothing is wrong with it. -/
def definitions (s : Source) : List Query :=
  match s.queries with
  | .error _ => []
  | .ok queries => queries

/-- Why a file of the directory at a path is no source: it cannot be read or is not UTF-8. -/
def readError? (directory : Files.Path) (file : Files.Path × Files.Reading) : Option LoadError :=
  match ofReading (directory.entry file.1) file.1.display file.2 with
  | .error e => some e
  | .ok _ => none

/-- The source in a file of the directory at a path. -/
def ofFile? (directory : Files.Path) (file : Files.Path × Files.Reading) : Option Source :=
  match ofReading (directory.entry file.1) file.1.display file.2 with
  | .error _ => none
  | .ok source => some source

theorem ofFiles_eq (directory : Files.Path) (files : List (Files.Path × Files.Reading)) :
    ofFiles directory files =
      match files.findSome? (readError? directory) with
      | some e => .error e
      | none => .ok (files.filterMap (ofFile? directory)) := by
  induction files with
  | nil => rfl
  | cons file rest ih =>
    obtain ⟨name, reading⟩ := file
    unfold ofFiles
    rw [List.findSome?_cons, List.filterMap_cons, ih]
    cases hfile : ofReading (directory.entry name) name.display reading with
    | error e => simp [readError?, hfile]
    | ok source =>
      simp only [readError?, ofFile?, hfile]
      cases rest.findSome? (readError? directory) <;> rfl

end Source

/-- The first source with an error decides; without one all that they define is read. -/
theorem Catalog.readAll_eq (sources : List Source) :
    readAll sources =
      match sources.findSome? Source.error? with
      | some e => .error e
      | none => .ok (sources.flatMap Source.definitions) := by
  induction sources with
  | nil => rfl
  | cons source rest ih =>
    unfold readAll
    rw [List.findSome?_cons, List.flatMap_cons, ih]
    cases hsource : source.queries with
    | error e => simp [Source.error?, hsource]
    | ok queries =>
      simp only [Source.error?, Source.definitions, hsource]
      cases rest.findSome? Source.error? <;> rfl

/-! ## Calls -/

/-- A call that adds queries to a catalog: those of some sources, or those of the directory at a
path. -/
inductive Loading where
  | sources (list : List Source)
  | directory (root : Files.Node) (path : Files.Path)

namespace Loading

/-- The catalog with the queries of the call added. -/
def perform (c : Catalog) : Loading → Except LoadError Catalog
  | sources list => c.load list
  | directory root path => c.loadDirectory root path

/-- What the call answers: the number of queries that are now held, or an error. -/
def answer (c : Catalog) (call : Loading) : Except LoadError Nat :=
  (call.perform c).map Catalog.size

/-- The catalog after the call. -/
def after (c : Catalog) (call : Loading) : Catalog :=
  match call.perform c with
  | .error _ => c
  | .ok c => c

/-- The sources that the call parses, in order. -/
def batch : Loading → List Source
  | sources list => list
  | directory root path =>
    match Files.list root path with
    | .error _ => []
    | .ok entries => (Files.queryFiles entries).filterMap (Source.ofFile? path)

/-- What keeps the sources of the call from being read. -/
def readError? : Loading → Option LoadError
  | sources _ => none
  | directory root path =>
    match Files.list root path with
    | .error e => some (.unreadable path e)
    | .ok entries => (Files.queryFiles entries).findSome? (Source.readError? path)

/-- What is wrong with the call: the first of its files that cannot be read, or else the first of
its sources that cannot be parsed. -/
def error? (call : Loading) : Option LoadError :=
  call.readError?.or (call.batch.findSome? Source.error?)

/-- The queries that the call defines: those of all its sources, in order, unless it fails. -/
def definitions (call : Loading) : List Query :=
  match call.error? with
  | some _ => []
  | none => call.batch.flatMap Source.definitions

theorem load_eq (c : Catalog) (list : List Source) :
    c.load list =
      match list.findSome? Source.error? with
      | some e => .error e
      | none => .ok (c.insertAll (list.flatMap Source.definitions)) := by
  unfold Catalog.load
  rw [Catalog.readAll_eq]
  cases list.findSome? Source.error? <;> rfl

/-- A call reads all its sources before it parses any. -/
theorem perform_eq_load (c : Catalog) (call : Loading) :
    call.perform c =
      match call.readError? with
      | some e => .error e
      | none => c.load call.batch := by
  cases call with
  | sources list => rfl
  | directory root path =>
    show c.loadDirectory root path = _
    unfold Catalog.loadDirectory Source.ofDirectory Source.ofListing
    simp only [readError?, batch]
    cases Files.list root path with
    | error e => rfl
    | ok entries =>
      simp only [Source.ofFiles_eq]
      cases (Files.queryFiles entries).findSome? (Source.readError? path) <;> rfl

theorem perform_eq (c : Catalog) (call : Loading) :
    call.perform c =
      match call.error? with
      | some e => .error e
      | none => .ok (c.insertAll call.definitions) := by
  rw [perform_eq_load, load_eq]
  unfold definitions error?
  cases call.readError? with
  | some e => rfl
  | none =>
    rw [Option.none_or]
    cases call.batch.findSome? Source.error? <;> rfl

theorem after_eq_insertAll (c : Catalog) (call : Loading) :
    call.after c = c.insertAll call.definitions := by
  unfold after
  rw [perform_eq]
  cases herror : call.error? with
  | some e => simp [definitions, herror, Catalog.insertAll]
  | none => rfl

end Loading

/-! ## Histories -/

/-- The catalog after calls that follow each other, the first on an empty catalog. -/
def Catalog.afterAll (calls : List Loading) : Catalog :=
  calls.foldl Loading.after ∅

theorem Catalog.foldl_after (c : Catalog) (calls : List Loading) :
    calls.foldl Loading.after c = c.insertAll (calls.flatMap Loading.definitions) := by
  induction calls generalizing c with
  | nil => rfl
  | cons call rest ih =>
    rw [List.foldl_cons, ih, Loading.after_eq_insertAll, List.flatMap_cons, insertAll_append]

/-- A failing call answers with its error and changes nothing; any other answers with the number of
queries that the catalog then holds. -/
theorem Loading.answer_eq (c : Catalog) (call : Loading) :
    (∀ e, call.error? = some e → call.answer c = .error e ∧ call.after c = c) ∧
      (call.error? = none → call.answer c = .ok (call.after c).size) := by
  unfold answer after
  rw [perform_eq]
  constructor
  · intro e he
    rw [he]
    exact ⟨rfl, rfl⟩
  · intro hnone
    rw [hnone]
    rfl

namespace Catalog

/-- The names are in the order of their bytes. -/
theorem pairwise_encode (c : Catalog) :
    c.toList.Pairwise fun a b => Text.Utf8.encode a.name < Text.Utf8.encode b.name :=
  c.pairwise_toList.imp Text.Utf8.encode_lt_encode

/-- After any calls, some of which may have failed, each name stands for its last definition in the
calls that succeeded. The next call, if it fails, answers with its error and changes nothing, and
otherwise answers with the number of queries. Each query stands under its own name, the queries are
listed in the order of the bytes of their names, and the catalog contains a name just if the name
can be looked up. -/
theorem afterAll_lastWins (calls : List Loading) :
    let c := afterAll calls
    (∀ name q, c.lookup name = .ok q ↔
        q.name = name ∧ q.LastIn (calls.flatMap Loading.definitions)) ∧
      (∀ call : Loading,
        (∀ e, call.error? = some e → call.answer c = .error e ∧ call.after c = c) ∧
          (call.error? = none → call.answer c = .ok (call.after c).size)) ∧
      c.queries.names = c.toList.map (·.name) ∧
      (∀ q, q ∈ c.toList ↔ c.lookup q.name = .ok q) ∧
      c.toList.Pairwise (fun a b => Text.Utf8.encode a.name < Text.Utf8.encode b.name) ∧
      (∀ name, c.contains name = true ↔ ∃ q, c.lookup name = .ok q) ∧
      c.size = c.toList.length := by
  intro c
  have hc : c = (∅ : Catalog).insertAll (calls.flatMap Loading.definitions) :=
    foldl_after ∅ calls
  refine ⟨fun name q => ?_, fun call => call.answer_eq c, c.names_eq, fun q => ?_,
    c.pairwise_encode, fun name => ?_, ?_⟩
  · rw [lookup_eq_ok_iff, hc, get?_insertAll_eq_some_iff]
    have hempty : (∅ : Catalog).get? name ≠ some q := nofun
    simp [hempty]
  · rw [lookup_eq_ok_iff]
    exact mem_toList_iff
  · simp only [lookup_eq_ok_iff]
    exact contains_iff
  · exact (List.length_map _).symm

end Catalog

/-- What is wrong with a file of the directory at a path, if it is taken by itself: it cannot be read
or it cannot be parsed. -/
def Source.fileError? (directory : Files.Path) (file : Files.Path × Files.Reading) :
    Option LoadError :=
  (readError? directory file).or ((ofFile? directory file).bind error?)

/-- A file with a header that has no name, and a file that is not UTF-8. -/
def faultyFiles : Files.Listing :=
  [("a.sql", .file (Text.Utf8.encode "-- name:\n")), ("b.sql", .file [0xFF])]

/-- The first file that has something wrong with it does not always decide. The first of two files
cannot be parsed, but what is answered is that the second cannot be read. -/
theorem loadDirectory_unreadableFirst :
    let root : Files.Node := .directory [("sql", .directory faultyFiles)]
    Files.list root "sql" = .ok faultyFiles ∧
      (Files.queryFiles faultyFiles).findSome? (Source.fileError? "sql") =
        some (.namelessHeader "a.sql" 1) ∧
      (Loading.directory root "sql").answer ∅ = .error (.notUtf8 "b.sql") := by
  have hsort : Files.queryFiles faultyFiles =
      [(.ofText "a.sql", .ok (Text.Utf8.encode "-- name:\n")), (.ofText "b.sql", .ok [0xFF])] :=
    List.mergeSort_of_pairwise (by decide)
  have hlist : Files.list (.directory [("sql", .directory faultyFiles)]) "sql" =
      .ok faultyFiles := by
    cbv
  have hread : (Files.queryFiles faultyFiles).findSome? (Source.readError? "sql") =
      some (.notUtf8 "b.sql") := by
    rw [hsort]
    cbv
  refine ⟨hlist, ?_, ?_⟩
  · rw [hsort]
    cbv
  · unfold Loading.answer
    rw [Loading.perform_eq_load]
    simp only [Loading.readError?, hlist, hread]
    rfl

end QueryBook
