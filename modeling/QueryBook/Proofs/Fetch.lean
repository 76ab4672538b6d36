import QueryBook.Proofs.Catalog.Lookup
import QueryBook.Proofs.Database.Submit
import QueryBook.Proofs.Row

/-!
# Three ways to ask for rows

A query can be asked for all its rows, for the row that there may be, or for the row that there has
to be. On one and the same reply the three agree as far as they can (`Agreement`): on one row they
succeed or fail together, by what the row reads as. On no row and on several they differ, and there
the number of rows goes before what the rows hold.
-/

namespace QueryBook

variable {α : Type}

/-! ## One reply -/

namespace Query

/-- The row that there has to be, from the row that there may be. -/
def require (name : String) : Except Error (Option α) → Except Error α
  | .error e => .error e
  | .ok none => .error (.rowNotFound name)
  | .ok (some a) => .ok a

variable (q : Query) (reader : RowReader α) {reply : Reply} {args : Arguments}
variable {db after : Database}

theorem fetchAll_of_submit (h : q.submit args db = (.ok reply, after)) :
    q.fetchAll reader args db = (q.allOf reader reply, after) := by
  unfold fetchAll
  rw [h]
  rfl

theorem fetchOne_eq_require (args : Arguments) (db : Database) :
    q.fetchOne reader args db =
      (require q.name (q.fetchOptional reader args db).1, (q.fetchOptional reader args db).2) := by
  unfold fetchOne
  generalize q.fetchOptional reader args db = fetched
  obtain ⟨(e | (_ | a)), after⟩ := fetched <;> rfl

/-- Every row is read once all rows have arrived in one piece. -/
theorem allOf_of_wellFormed (h : ∀ row ∈ reply.rows, row.isWellFormed = true) :
    q.allOf reader reply = ((reply.rows.map reader).mapM id).mapError (.decode q.name) := by
  unfold allOf
  rw [if_pos (List.all_eq_true.2 h), readRows_eq_mapM]

theorem allOf_of_malformed {row : Row} (hrow : row ∈ reply.rows) (h : row.isWellFormed = false) :
    q.allOf reader reply = .error (.execute q.name .malformedRow) := by
  have hall : ¬reply.rows.all Row.isWellFormed = true := by
    intro hall
    rw [List.all_eq_true.1 hall row hrow] at h
    cases h
  unfold allOf
  rw [if_neg hall]

/-- The only row is read, or else the client does not take it. -/
theorem optionalOf_singleton {row : Row} (h : reply.rows = [row]) :
    q.optionalOf reader reply =
      if row.isWellFormed then ((reader row).map some).mapError (.decode q.name)
      else .error (.execute q.name .malformedRow) := by
  unfold optionalOf
  rw [h, onlyRow]
  cases row.isWellFormed <;> rfl

/-- With a second row the first one is not read. -/
theorem optionalOf_of_several (h : 2 ≤ reply.rows.length) :
    ∃ cause, q.optionalOf reader reply = .error (.execute q.name cause) ∧
      ((∀ row ∈ reply.rows, row.isWellFormed = true) → cause = .rowCount) := by
  unfold optionalOf
  match hrows : reply.rows with
  | [] => simp [hrows] at h
  | [row] => simp [hrows] at h
  | first :: second :: rest =>
    refine ⟨_, rfl, ?_⟩
    intro hall
    rw [hall first (by simp), hall second (by simp)]
    rfl

end Query

/-! ## The three ways -/

/-- How the answers to three requests for the rows of the query `name` go together, where the reply
had these rows: `all` for every row, `optional` for the row that there may be, `one` for the row that
there has to be. -/
structure Agreement (name : String) (reader : RowReader α) (rows : List Row)
    (all : Except Error (List α)) (optional : Except Error (Option α)) (one : Except Error α) :
    Prop where
  /-- That there is no row is an error only where there has to be one. -/
  nothing : rows = [] → all = .ok [] ∧ optional = .ok none ∧ one = .error (.rowNotFound name)
  /-- On one row the three have the same value or the same error, and what the row reads as decides,
  provided that the client takes the row. -/
  single : ∀ row, rows = [row] → all = one.map (fun a => [a]) ∧ optional = one.map some ∧
    (row.isWellFormed = true → one = (reader row).mapError (.decode name))
  /-- Several rows are too many for a request for one, whatever they hold. -/
  several : 2 ≤ rows.length → ∃ cause, optional = .error (.execute name cause) ∧
    one = .error (.execute name cause) ∧
    ((∀ row ∈ rows, row.isWellFormed = true) → cause = .rowCount)
  /-- All rows are read in their order, or the first that cannot be read is the error. -/
  every : (∀ row ∈ rows, row.isWellFormed = true) →
    (∀ values, all = .ok values ↔ rows.map reader = values.map .ok) ∧
    ∀ e, all = .error e ↔ ∃ cause, FirstError (rows.map reader) cause ∧ e = .decode name cause
  /-- A row that the client does not take goes before everything that the rows hold. -/
  malformed : ∀ row ∈ rows, row.isWellFormed = false →
    all = .error (.execute name .malformedRow)

theorem Query.agreement (q : Query) (reader : RowReader α) (reply : Reply) :
    Agreement q.name reader reply.rows (q.allOf reader reply) (q.optionalOf reader reply)
      (require q.name (q.optionalOf reader reply)) where
  nothing h := by
    have hall : q.allOf reader reply = .ok [] := by
      rw [q.allOf_of_wellFormed reader (by simp [h]), h]
      rfl
    have hoptional : q.optionalOf reader reply = .ok none := by
      unfold optionalOf
      rw [h]
      rfl
    rw [hall, hoptional]
    exact ⟨rfl, rfl, rfl⟩
  single row h := by
    rw [q.optionalOf_singleton reader h]
    cases hrow : row.isWellFormed with
    | true =>
      rw [q.allOf_of_wellFormed reader (by simpa [h] using hrow), h, if_pos rfl, List.map_cons,
        List.map_nil]
      cases reader row <;> exact ⟨rfl, rfl, fun _ => rfl⟩
    | false =>
      rw [q.allOf_of_malformed reader (by simp [h]) hrow]
      exact ⟨rfl, rfl, fun h => (by cases h)⟩
  several h := by
    obtain ⟨cause, hoptional, hcause⟩ := q.optionalOf_of_several reader h
    rw [hoptional]
    exact ⟨cause, rfl, rfl, hcause⟩
  every h := by
    rw [q.allOf_of_wellFormed reader h]
    simp only [mapError_eq_ok_iff, mapError_eq_error_iff, mapM_id_eq_ok_iff, mapM_id_eq_error_iff,
      implies_true, and_self]
  malformed row hrow h := q.allOf_of_malformed reader hrow h

/-! ## By name, on a database -/

theorem Catalog.withQuery_of_get? {β : Type} {c : Catalog} {name : String} {q : Query}
    (h : c.get? name = some q) (run : Query → Database → Except Error β × Database)
    (db : Database) : c.withQuery name run db = run q db := by
  rw [withQuery, lookup, h]

theorem Query.submit_of_bind {q : Query} {args : Arguments} {values : List Value} {db : Database}
    {reply : Reply} (hbind : q.bind args = .ok values)
    (hreply : (db.submit q.body values).1 = .ok reply) :
    q.submit args db = (.ok reply, (db.submit q.body values).2) := by
  unfold submit
  rw [hbind]
  dsimp only
  rw [hreply]
  rfl

/-- For a query that is known and bound, on a database that answers it with whatever rows: the
three ways to ask for the rows agree. What a tuple of readers makes of a row is told position by
position; readers of several types are put into one with `CellReader.map`. -/
theorem fetch_agree {c : Catalog} {name : String} {q : Query} (hq : c.get? name = some q)
    {args : Arguments} {values : List Value} (hbind : q.bind args = .ok values) {db : Database}
    {reply : Reply} (hreply : (db.submit q.body values).1 = .ok reply) :
    (∀ {α : Type} (reader : RowReader α), Agreement name reader reply.rows
      (c.fetchAll reader name args db).1 (c.fetchOptional reader name args db).1
      (c.fetchOne reader name args db).1) ∧
    ∀ {α : Type} (readers : List (CellReader α)) (row : Row), row.isWellFormed = true →
      RowReader.ReadsByPosition readers row := by
  have hsubmit := Query.submit_of_bind hbind hreply
  constructor
  · intro α reader
    have hagree := q.agreement reader reply
    rw [Catalog.name_of_get? hq] at hagree
    unfold Catalog.fetchAll Catalog.fetchOptional Catalog.fetchOne
    simp only [Catalog.withQuery_of_get? hq]
    rw [q.fetchAll_of_submit reader hsubmit, q.fetchOne_eq_require reader,
      Query.fetchOptional_of_submit hsubmit, Catalog.name_of_get? hq]
    exact hagree
  · intro α readers row hrow
    exact RowReader.readsByPosition hrow

/-- A query with two columns and one parameter. -/
def topScores : Query :=
  ⟨"top-scores", "SELECT points, player FROM scores WHERE game = $1", ["game"]⟩

/-- Three scores, the second without points and the third with too few bytes for them. -/
def scoreRows : List Row :=
  [[some [0, 0, 0, 7], some [97]], [none, some [98]], [some [0, 0], some [99]]].map
    (⟨[⟨"points", .int4⟩, ⟨"player", .text⟩], ·⟩)

/-- A database that answers the query with these rows. -/
def scoreBoard : Database :=
  .ofContents ⟨false, none, []⟩ 0 [{
    sql := topScores.body
    params := [.text]
    columns := [⟨"points", .int4⟩, ⟨"player", .text⟩]
    rows := scoreRows.map (·.cells)
    tag := "SELECT 3" }]

/-- Asked for all rows, the second is the error; asked for one row, that there are several. -/
theorem fetch_agree_scoreBoard :
    let catalog := (∅ : Catalog).insert topScores
    let args : Arguments := (∅ : Arguments).insert "game" (.text "go")
    let points := RowReader.positional [CellReader.int32]
    catalog.get? "top-scores" = some topScores ∧ topScores.bind args = .ok [.text "go"] ∧
      (scoreBoard.submit topScores.body [.text "go"]).1 = .ok ⟨scoreRows, "SELECT 3"⟩ ∧
      (catalog.fetchAll points "top-scores" args scoreBoard).1 =
        .error (.decode "top-scores" (.cell 0 .null)) ∧
      (catalog.fetchOptional points "top-scores" args scoreBoard).1 =
        .error (.execute "top-scores" .rowCount) ∧
      (catalog.fetchOne points "top-scores" args scoreBoard).1 =
        .error (.execute "top-scores" .rowCount) ∧
      ∀ row ∈ scoreRows, row.isWellFormed = true ∧
        RowReader.ReadsByPosition [CellReader.int32] row := by
  intro catalog args points
  have hknown : catalog.get? "top-scores" = some topScores := by decide +kernel
  have hbind : topScores.bind args = .ok [.text "go"] := rfl
  have hreply : (scoreBoard.submit topScores.body [.text "go"]).1 = .ok ⟨scoreRows, "SELECT 3"⟩ :=
    rfl
  have hwell : ∀ row ∈ scoreRows, row.isWellFormed = true := List.all_eq_true.1 rfl
  obtain ⟨hagree, htuple⟩ := fetch_agree hknown hbind hreply
  have hagree := hagree points
  obtain ⟨cause, hoptional, hone, hcause⟩ := hagree.several (by decide)
  rw [hcause hwell] at hoptional hone
  refine ⟨hknown, hbind, hreply, ?_, hoptional, hone, fun row hrow => ⟨hwell row hrow, ?_⟩⟩
  · -- the first row is read, the second has no points
    have hfirst : FirstError (scoreRows.map points) (.cell 0 .null) := by
      refine ⟨1, rfl, ?_⟩
      intro j hj
      obtain rfl : j = 0 := by omega
      exact ⟨[7], rfl⟩
    exact ((hagree.every hwell).2 _).2 ⟨.cell 0 .null, hfirst, rfl⟩
  · exact htuple [CellReader.int32] row (hwell row hrow)

end QueryBook
