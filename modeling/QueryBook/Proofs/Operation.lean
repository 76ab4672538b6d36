import QueryBook.Proofs.Arguments
import QueryBook.Proofs.Catalog.Lookup
import QueryBook.Proofs.Database.Submit

/-!
# What an operation on a query comes to

A query is run for its effect, or for all its rows, for at most one or for just one. Before anything
is sent the query has to be known and every parameter needs its value (`select_eq`). After that the
statement is handed to the client once, and nothing but the client's answer decides the result
(`run_of_given`): an error of the client or the server, a row that cannot be read, or a value
(`Operation.outcome`). All of this is one theorem, `Operation.run_classified`.
-/

namespace QueryBook

/-! ## The operations -/

/-- What can be asked of a query, by the type of what it gives. -/
inductive Operation : Type → Type 1 where
  /-- The number of rows that were touched. -/
  | execute : Operation Nat
  /-- Every row. -/
  | all {α : Type} (reader : RowReader α) : Operation (List α)
  /-- The row, if there is one. -/
  | optional {α : Type} (reader : RowReader α) : Operation (Option α)
  /-- The row, which there has to be. -/
  | one {α : Type} (reader : RowReader α) : Operation α

/-- Why a row cannot be read, if it cannot. -/
def RowReader.error? {α : Type} (reader : RowReader α) (row : Row) : Option ClientError :=
  match reader row with
  | .error cause => some cause
  | .ok _ => none

/-- What a row reads as, if it can be read. -/
def RowReader.value? {α : Type} (reader : RowReader α) (row : Row) : Option α :=
  (reader row).toOption

namespace Operation

/-- Runs the operation on a query that has been found. -/
def run {β : Type} : Operation β → Query → Arguments → Database → Except Error β × Database
  | .execute, q => q.execute
  | .all reader, q => q.fetchAll reader
  | .optional reader, q => q.fetchOptional reader
  | .one reader, q => q.fetchOne reader

/-- Runs the operation on the query of a name. -/
def byName {β : Type} :
    Operation β → Catalog → String → Arguments → Database → Except Error β × Database
  | .execute, c => c.execute
  | .all reader, c => c.fetchAll reader
  | .optional reader, c => c.fetchOptional reader
  | .one reader, c => c.fetchOne reader

/-! ## What an answer of the client means -/

/-- The rows of a reply that the client hands over. It checks each row that it looks at, and it does
not hand over one of two rows where at most one was asked for. -/
def handedOver {β : Type} : Operation β → Reply → Except ClientError (List Row)
  | .execute, _ => .ok []
  | .all _, reply =>
    if reply.rows.all Row.isWellFormed then .ok reply.rows else .error .malformedRow
  | .optional _, reply | .one _, reply => (Query.onlyRow reply.rows).map Option.toList

/-- Why a row that was handed over cannot be read, if it cannot. -/
def readError? {β : Type} : Operation β → Row → Option ClientError
  | .execute => fun _ => none
  | .all reader | .optional reader | .one reader => reader.error?

/-- What the rows that were handed over come to, each of them being readable. Only a row that there
has to be can be missed. -/
def value? {β : Type} : Operation β → Reply → List Row → Option β
  | .execute, reply, _ => some reply.affected
  | .all reader, _, rows => some (rows.filterMap reader.value?)
  | .optional reader, _, rows => some (rows.head?.bind reader.value?)
  | .one reader, _, rows => rows.head?.bind reader.value?

/-- What the answer of the client makes of an operation on the query of this name. The first row that
cannot be read decides. -/
def outcome {β : Type} (op : Operation β) (name : String) (answer : Except ClientError Reply) :
    Except Error β :=
  match answer with
  | .error cause => .error (.execute name cause)
  | .ok reply =>
    match op.handedOver reply with
    | .error cause => .error (.execute name cause)
    | .ok rows =>
      match rows.findSome? op.readError? with
      | some cause => .error (.decode name cause)
      | none =>
        match op.value? reply rows with
        | some value => .ok value
        | none => .error (.rowNotFound name)

end Operation

/-! ## Before anything is sent -/

/-- The first parameter of the query that is given no value. -/
def Query.absent? (q : Query) (args : Arguments) : Option String :=
  q.params.find? fun param => (args.get? param).isNone

/-- The values of the parameters of the query, in their order. -/
def Query.given (q : Query) (args : Arguments) : List Value :=
  q.params.filterMap args.get?

/-- The choice of values fails at the first parameter that has none. -/
theorem Arguments.select_eq (args : Arguments) (params : List String) :
    args.select params = match params.find? fun param => (args.get? param).isNone with
      | some missing => .error missing
      | none => .ok (params.filterMap args.get?) := by
  induction params with
  | nil => rfl
  | cons param rest ih =>
    unfold select
    rw [List.find?_cons, List.filterMap_cons]
    cases hparam : args.get? param with
    | none => rfl
    | some value =>
      rw [ih]
      simp only [Option.isNone_some]
      cases rest.find? fun param => (args.get? param).isNone <;> rfl

/-- Where no parameter is without a value, the values are those of the parameters one by one. -/
theorem Query.map_get?_of_absent?_eq_none {q : Query} {args : Arguments}
    (h : q.absent? args = none) : q.params.map args.get? = (q.given args).map some := by
  have hselect := args.select_eq q.params
  unfold absent? at h
  rw [h] at hselect
  exact Arguments.map_get?_of_select hselect

theorem Query.submit_of_absent {q : Query} {args : Arguments} {param : String}
    (h : q.absent? args = some param) (db : Database) :
    q.submit args db = (.error (.missingArgument ⟨q.name, param⟩), db) := by
  have hselect := args.select_eq q.params
  unfold absent? at h
  rw [h] at hselect
  unfold submit bind
  rw [hselect]
  rfl

theorem Query.submit_of_given {q : Query} {args : Arguments} (h : q.absent? args = none)
    (db : Database) :
    q.submit args db = ((db.submit q.body (q.given args)).1.mapError (.execute q.name),
      (db.submit q.body (q.given args)).2) := by
  have hselect := args.select_eq q.params
  unfold absent? at h
  rw [h] at hselect
  unfold submit
  rw [bind_eq_ok_iff.2 hselect]
  rfl

/-- A statement that the client takes stands in the log once. -/
theorem Database.log_submit (db : Database) (sql : String) (values : List Value) :
    (db.submit sql values).2 = db ∨
      ∃ cells, (db.submit sql values).2.log = db.log ++ [.statement sql cells] := by
  rcases db.submit_snd sql values with h | ⟨cells, contents, h⟩
  · exact .inl h
  · refine .inr ⟨cells, ?_⟩
    rw [h]

/-! ## After the answer -/

/-- Reading rows fails at the first row that cannot be read. -/
theorem readRows_eq {α : Type} (reader : RowReader α) (rows : List Row) :
    readRows reader rows = match rows.findSome? reader.error? with
      | some cause => .error cause
      | none => .ok (rows.filterMap reader.value?) := by
  induction rows with
  | nil => rfl
  | cons row rest ih =>
    unfold readRows
    rw [List.findSome?_cons, List.filterMap_cons, RowReader.error?, RowReader.value?]
    cases hrow : reader row with
    | error cause => rfl
    | ok a =>
      simp only [ih, Except.toOption]
      cases rest.findSome? reader.error? <;> rfl

namespace Query

variable {α : Type} (q : Query) (reader : RowReader α) (reply : Reply)

theorem allOf_eq_outcome :
    q.allOf reader reply = (Operation.all reader).outcome q.name (.ok reply) := by
  unfold allOf Operation.outcome Operation.handedOver
  by_cases h : reply.rows.all Row.isWellFormed = true
  · simp only [h, if_true, readRows_eq, Operation.readError?]
    cases reply.rows.findSome? reader.error? <;> rfl
  · simp only [h]
    rfl

theorem optionalOf_eq_outcome :
    q.optionalOf reader reply = (Operation.optional reader).outcome q.name (.ok reply) := by
  simp only [optionalOf, Operation.outcome, Operation.handedOver]
  rcases onlyRow reply.rows with cause | (_ | row)
  · rfl
  · rfl
  · simp only [Except.map, Option.toList, Operation.readError?, Operation.value?,
      List.findSome?_cons, RowReader.error?, List.head?_cons, Option.bind_some, RowReader.value?]
    cases reader row <;> rfl

/-- The row that there has to be is the row that there may be. -/
theorem outcome_one : (Operation.one reader).outcome q.name (.ok reply) =
    (q.optionalOf reader reply).bind fun
      | some a => .ok a
      | none => .error (.rowNotFound q.name) := by
  rw [optionalOf_eq_outcome]
  simp only [Operation.outcome, Operation.handedOver, Operation.readError?, Operation.value?]
  rcases (onlyRow reply.rows).map Option.toList with cause | rows
  · rfl
  · dsimp only
    cases rows.findSome? reader.error? with
    | some cause => rfl
    | none => cases rows.head?.bind reader.value? <;> rfl

end Query

namespace Operation

variable {β : Type}

/-- Without a value for every parameter nothing is sent. -/
theorem run_of_absent (op : Operation β) {q : Query} {args : Arguments} {param : String}
    (h : q.absent? args = some param) (db : Database) :
    op.run q args db = (.error (.missingArgument ⟨q.name, param⟩), db) := by
  have hsubmit := Query.submit_of_absent h db
  cases op with
  | execute =>
    show q.execute args db = _
    rw [Query.execute, hsubmit]
    rfl
  | all reader =>
    show q.fetchAll reader args db = _
    rw [Query.fetchAll, hsubmit]
    rfl
  | optional reader =>
    show q.fetchOptional reader args db = _
    rw [Query.fetchOptional, hsubmit]
    rfl
  | one reader =>
    show q.fetchOne reader args db = _
    rw [Query.fetchOne, Query.fetchOptional, hsubmit]
    rfl

/-- With a value for every parameter the statement is handed to the client, and the client's answer
decides. -/
theorem run_of_given (op : Operation β) {q : Query} {args : Arguments} (h : q.absent? args = none)
    (db : Database) :
    op.run q args db = (op.outcome q.name (db.submit q.body (q.given args)).1,
      (db.submit q.body (q.given args)).2) := by
  have hsubmit := Query.submit_of_given h db
  generalize db.submit q.body (q.given args) = answered at hsubmit ⊢
  obtain ⟨answer, after⟩ := answered
  cases op with
  | execute =>
    show q.execute args db = _
    rw [Query.execute, hsubmit]
    cases answer <;> rfl
  | all reader =>
    show q.fetchAll reader args db = _
    rw [Query.fetchAll, hsubmit]
    cases answer with
    | error cause => rfl
    | ok reply => exact Prod.ext (q.allOf_eq_outcome reader reply) rfl
  | optional reader =>
    show q.fetchOptional reader args db = _
    rw [Query.fetchOptional, hsubmit]
    cases answer with
    | error cause => rfl
    | ok reply => exact Prod.ext (q.optionalOf_eq_outcome reader reply) rfl
  | one reader =>
    show q.fetchOne reader args db = _
    rw [Query.fetchOne, Query.fetchOptional, hsubmit]
    cases answer with
    | error cause => rfl
    | ok reply => exact Prod.ext (q.outcome_one reader reply).symm rfl

theorem kind_of_outcome (op : Operation β) {name : String} {answer : Except ClientError Reply}
    {e : Error} (h : op.outcome name answer = .error e) : e.kind ≠ .transaction := by
  unfold outcome at h
  split at h
  · cases h
    simp [Error.kind]
  · split at h
    · cases h
      simp [Error.kind]
    · split at h
      · cases h
        simp [Error.kind]
      · split at h
        · cases h
        · cases h
          simp [Error.kind]

/-- No error of a query is about a transaction as a whole. -/
theorem kind_of_run (op : Operation β) {q : Query} {args : Arguments} {db after : Database}
    {e : Error} (h : op.run q args db = (.error e, after)) : e.kind ≠ .transaction := by
  cases hargs : q.absent? args with
  | none =>
    rw [op.run_of_given hargs db] at h
    exact op.kind_of_outcome (Prod.mk.inj h).1
  | some param =>
    rw [op.run_of_absent hargs db] at h
    cases h
    simp [Error.kind]

/-- A name is looked up before anything else. -/
theorem byName_eq (op : Operation β) (c : Catalog) (name : String) (args : Arguments)
    (db : Database) :
    op.byName c name args db = c.withQuery name (fun q db => op.run q args db) db := by
  cases op <;> rfl

theorem kind_of_byName (op : Operation β) {c : Catalog} {name : String} {args : Arguments}
    {db after : Database} {e : Error} (h : op.byName c name args db = (.error e, after)) :
    e.kind ≠ .transaction := by
  rw [byName_eq] at h
  unfold Catalog.withQuery Catalog.lookup at h
  cases hq : c.get? name with
  | none =>
    rw [hq] at h
    cases h
    simp [Error.kind]
  | some q =>
    rw [hq] at h
    exact op.kind_of_run h

end Operation

namespace Query

variable {α : Type} {q : Query} {reader : RowReader α} {args : Arguments} {db after : Database}
variable {e : Error}

theorem kind_of_execute (h : q.execute args db = (.error e, after)) : e.kind ≠ .transaction :=
  Operation.execute.kind_of_run h

theorem kind_of_fetchOptional (h : q.fetchOptional reader args db = (.error e, after)) :
    e.kind ≠ .transaction :=
  (Operation.optional reader).kind_of_run h

theorem kind_of_fetchOne (h : q.fetchOne reader args db = (.error e, after)) :
    e.kind ≠ .transaction :=
  (Operation.one reader).kind_of_run h

end Query

/-! ## The whole of it -/

namespace Operation

variable {β : Type}

/-- A name that is not in the catalog is the error, and so is a parameter without a value; in both
cases the database is as it was, its log included. Otherwise the statement of this very query is
handed to the client once, with the values of its parameters in their order, and only the client's
answer decides the result, whether a transaction is open or not. -/
theorem run_classified (op : Operation β) (c : Catalog) (name : String) (q : Query)
    (args : Arguments) (db : Database) :
    (c.get? name = none → op.byName c name args db = (.error (.queryNotFound name), db)) ∧
    (c.get? name = some q → q.name = name ∧ op.byName c name args db = op.run q args db) ∧
    (∀ param, q.absent? args = some param →
      op.run q args db = (.error (.missingArgument ⟨q.name, param⟩), db)) ∧
    (q.absent? args = none →
      q.params.map args.get? = (q.given args).map some ∧
      op.run q args db = (op.outcome q.name (db.submit q.body (q.given args)).1,
        (db.submit q.body (q.given args)).2) ∧
      ((op.run q args db).2 = db ∨
        ∃ cells, (op.run q args db).2.log = db.log ++ [.statement q.body cells]) ∧
      ∀ other : Database,
        (other.submit q.body (q.given args)).1 = (db.submit q.body (q.given args)).1 →
        (op.run q args other).1 = (op.run q args db).1) := by
  refine ⟨?_, ?_, fun param hparam => op.run_of_absent hparam db, fun hgiven => ⟨?_, ?_, ?_, ?_⟩⟩
  · intro hnone
    rw [byName_eq, Catalog.withQuery, Catalog.lookup, hnone]
  · intro hsome
    refine ⟨Catalog.name_of_get? hsome, ?_⟩
    rw [byName_eq, Catalog.withQuery, Catalog.lookup, hsome]
  · exact Query.map_get?_of_absent?_eq_none hgiven
  · exact op.run_of_given hgiven db
  · rw [op.run_of_given hgiven db]
    exact db.log_submit q.body (q.given args)
  · intro other hsame
    rw [op.run_of_given hgiven other, op.run_of_given hgiven db, hsame]

/-- A query with one parameter. -/
def nameOfUser : Query :=
  ⟨"name-of-user", "SELECT name FROM users WHERE id = $1", ["id"]⟩

/-- A database that answers the query with a row whose cell is NULL. -/
def nameless : Database :=
  .ofContents ⟨false, none, []⟩ 0 [{
    sql := nameOfUser.body
    params := [.int8]
    columns := [⟨"name", .text⟩]
    rows := [[none]] }]

/-- A query that is not known, one without its argument, and one whose row cannot be read, which
inside of a transaction is the same. -/
theorem one_nameOfUser :
    let users := (∅ : Catalog).insert nameOfUser
    let reader := RowReader.single CellReader.text
    let seven : Arguments := (∅ : Arguments).insert "id" (.int64 7)
    (users.get? "nobody" = none ∧
      (one reader).byName users "nobody" seven nameless =
        (.error (.queryNotFound "nobody"), nameless)) ∧
    (users.get? "name-of-user" = some nameOfUser ∧ nameOfUser.absent? ∅ = some "id" ∧
      (one reader).byName users "name-of-user" ∅ nameless =
        (.error (.missingArgument ⟨"name-of-user", "id"⟩), nameless)) ∧
    (nameOfUser.absent? seven = none ∧ nameOfUser.given seven = [.int64 7] ∧
      ((one reader).run nameOfUser seven nameless).1 =
        .error (.decode "name-of-user" (.cell 0 .null)) ∧
      ((one reader).run nameOfUser seven nameless.beginTransaction.2).1 =
        ((one reader).run nameOfUser seven nameless).1) := by
  intro users reader seven
  have hnone : users.get? "nobody" = none := by decide +kernel
  have hsome : users.get? "name-of-user" = some nameOfUser := by decide +kernel
  have habsent : nameOfUser.absent? ∅ = some "id" := by decide +kernel
  have hgiven : nameOfUser.absent? seven = none := by decide +kernel
  have hvalues : nameOfUser.given seven = [.int64 7] := by decide +kernel
  refine ⟨⟨hnone, ?_⟩, ⟨hsome, habsent, ?_⟩, hgiven, hvalues, ?_, ?_⟩
  · exact (run_classified _ users "nobody" nameOfUser seven nameless).1 hnone
  · obtain ⟨-, hname, hmissing, -⟩ :=
      run_classified (one reader) users "name-of-user" nameOfUser ∅ nameless
    rw [(hname hsome).2, hmissing "id" habsent]
    rfl
  · obtain ⟨-, -, -, hrun⟩ := run_classified (one reader) users "" nameOfUser seven nameless
    rw [(hrun hgiven).2.1, hvalues]
    rfl
  · obtain ⟨-, -, -, hrun⟩ := run_classified (one reader) users "" nameOfUser seven nameless
    refine (hrun hgiven).2.2.2 nameless.beginTransaction.2 ?_
    rw [hvalues]
    rfl

end Operation

end QueryBook
