import QueryBook.Execute

/-!
# Reading rows, and reading a row by position

Rows are read one after another, and so are the cells of a row: either every reading gives a value
or the first that gives none decides (`mapM_id_eq_ok_iff`, `mapM_id_eq_error_iff`). A tuple of readers
takes the first cells of a row, one each. It reads the row just if there is a column for every
position whose cell can be read, the lowest position that fails is the error otherwise, and columns
behind the last position do not count (`readsByPosition`).
-/

namespace QueryBook

/-! ## One after another -/

section Results

variable {α ε : Type} {results : List (Except ε α)}

/-- The first of the results that is an error is this one. -/
def FirstError (results : List (Except ε α)) (e : ε) : Prop :=
  ∃ i : Nat, results[i]? = some (.error e) ∧ ∀ j < i, ∃ a, results[j]? = some (.ok a)

theorem firstError_cons {result : Except ε α} {e : ε} :
    FirstError (result :: results) e ↔
      result = .error e ∨ (∃ a, result = .ok a) ∧ FirstError results e := by
  constructor
  · rintro ⟨i, herror, hbefore⟩
    cases i with
    | zero => exact .inl (by simpa using herror)
    | succ i =>
      refine .inr ⟨by simpa using hbefore 0 (by omega), i, by simpa using herror, ?_⟩
      intro j hj
      simpa using hbefore (j + 1) (by omega)
  · rintro (rfl | ⟨⟨a, rfl⟩, i, herror, hbefore⟩)
    · exact ⟨0, rfl, fun j hj => absurd hj (Nat.not_lt_zero j)⟩
    · refine ⟨i + 1, by simpa using herror, ?_⟩
      intro j hj
      cases j with
      | zero => exact ⟨a, rfl⟩
      | succ j => simpa using hbefore j (by omega)

/-- All results are values, and these are the values in their order. -/
theorem mapM_id_eq_ok_iff {values : List α} :
    results.mapM id = .ok values ↔ results = values.map .ok := by
  induction results generalizing values with
  | nil => cases values <;> simp [pure, Except.pure]
  | cons result rest ih =>
    rw [List.mapM_cons]
    cases result with
    | error e => cases values <;> simp [bind, Except.bind]
    | ok a =>
      cases values with
      | nil => cases rest.mapM id <;> simp [bind, Except.bind, pure, Except.pure]
      | cons b more =>
        rw [List.map_cons, List.cons.injEq, ← ih]
        cases rest.mapM id <;> simp [bind, Except.bind, pure, Except.pure]

theorem mapM_id_eq_error_iff {e : ε} : results.mapM id = .error e ↔ FirstError results e := by
  induction results with
  | nil => simp [FirstError, pure, Except.pure]
  | cons result rest ih =>
    rw [List.mapM_cons, firstError_cons, ← ih]
    cases result with
    | error e' => simp [bind, Except.bind]
    | ok a => cases rest.mapM id <;> simp [bind, Except.bind, pure, Except.pure]

theorem mapError_eq_ok_iff {ε' : Type} {f : ε → ε'} {result : Except ε α} {a : α} :
    result.mapError f = .ok a ↔ result = .ok a := by
  cases result with
  | error e => exact ⟨fun h => (by cases h), fun h => (by cases h)⟩
  | ok b =>
    constructor
    · intro h
      cases h
      rfl
    · intro h
      cases h
      rfl

theorem mapError_eq_error_iff {ε' : Type} {f : ε → ε'} {result : Except ε α} {e : ε'} :
    result.mapError f = .error e ↔ ∃ cause, result = .error cause ∧ e = f cause := by
  cases result with
  | error cause =>
    constructor
    · intro h
      cases h
      exact ⟨cause, rfl, rfl⟩
    · rintro ⟨cause', hcause, rfl⟩
      cases hcause
      rfl
  | ok a =>
    constructor
    · intro h
      cases h
    · rintro ⟨cause, hcause, -⟩
      cases hcause

end Results

variable {α : Type}

theorem readRows_eq_mapM (reader : RowReader α) (rows : List Row) :
    readRows reader rows = (rows.map reader).mapM id := by
  induction rows with
  | nil => rfl
  | cons row rest ih =>
    rw [List.map_cons, List.mapM_cons, ← ih, readRows]
    cases reader row with
    | error e => rfl
    | ok a =>
      simp only [id_eq, bind, Except.bind]
      cases readRows reader rest <;> rfl

/-! ## One cell -/

namespace Row

/-- There is a column at this position, and the reader makes this value of its cell. -/
def Holds (row : Row) (i : Nat) (reader : CellReader α) (a : α) : Prop :=
  ∃ column cell, row.columns[i]? = some column ∧ row.cells[i]? = some cell ∧
    reader.read column.type cell = .ok a

/-- Why the reader can make nothing of a position. -/
inductive Fails (row : Row) (i : Nat) (reader : CellReader α) : ClientError → Prop where
  | noColumn (hcolumn : row.columns[i]? = none) : Fails row i reader (.noColumn (.index i))
  | cell {column : Column} {cell : Cell} {cause : DecodeError}
      (hcolumn : row.columns[i]? = some column) (hcell : row.cells[i]? = some cell)
      (hread : reader.read column.type cell = .error cause) : Fails row i reader (.cell i cause)

theorem read_index (row : Row) (i : Nat) (reader : CellReader α) :
    row.read (.index i) reader = match row.columns[i]? with
      | none => .error (.noColumn (.index i))
      | some column => (reader.read column.type (row.cells.getD i none)).mapError (.cell i) := by
  cases hcolumn : row.columns[i]? with
  | none =>
    have hi := List.getElem?_eq_none_iff.1 hcolumn
    simp only [read, find?, if_neg (Nat.not_lt.2 hi)]
  | some column =>
    have hi := (List.getElem?_eq_some_iff.1 hcolumn).1
    simp only [read, find?, if_pos hi, hcolumn]

variable {row : Row} {i : Nat} {reader : CellReader α}

/-- A row that a client takes has a cell in every column. -/
theorem exists_cell (hrow : row.isWellFormed = true) {column : Column}
    (hcolumn : row.columns[i]? = some column) : ∃ cell, row.cells[i]? = some cell := by
  have hlength : row.cells.length = row.columns.length := by simpa [isWellFormed] using hrow
  have hi := (List.getElem?_eq_some_iff.1 hcolumn).1
  exact ⟨row.cells[i], List.getElem?_eq_getElem (by omega)⟩

theorem read_index_eq_ok_iff (hrow : row.isWellFormed = true) {a : α} :
    row.read (.index i) reader = .ok a ↔ row.Holds i reader a := by
  rw [read_index]
  cases hcolumn : row.columns[i]? with
  | none => simp [Holds, hcolumn]
  | some column =>
    obtain ⟨cell, hcell⟩ := exists_cell hrow hcolumn
    simp [Holds, hcolumn, hcell, mapError_eq_ok_iff]

theorem read_index_eq_error_iff (hrow : row.isWellFormed = true) {e : ClientError} :
    row.read (.index i) reader = .error e ↔ row.Fails i reader e := by
  rw [read_index]
  cases hcolumn : row.columns[i]? with
  | none =>
    constructor
    · intro h
      cases h
      exact .noColumn hcolumn
    · rintro (_ | ⟨hsome, -, -⟩)
      · rfl
      · rw [hcolumn] at hsome
        cases hsome
  | some column =>
    obtain ⟨cell, hcell⟩ := exists_cell hrow hcolumn
    simp only [List.getD_eq_getElem?_getD, hcell, Option.getD_some, mapError_eq_error_iff]
    constructor
    · rintro ⟨cause, hread, rfl⟩
      exact .cell hcolumn hcell hread
    · rintro (hnone | ⟨hcolumn', hcell', hread⟩)
      · rw [hcolumn] at hnone
        cases hnone
      · rw [hcolumn] at hcolumn'
        rw [hcell] at hcell'
        cases hcolumn'
        cases hcell'
        exact ⟨_, hread, rfl⟩

end Row

/-! ## Tuples -/

namespace RowReader

theorem ofKeys_eq_mapM (keys : List (ColumnKey × CellReader α)) (row : Row) :
    ofKeys keys row = (keys.map fun p => row.read p.1 p.2).mapM id := by
  induction keys with
  | nil => rfl
  | cons p rest ih =>
    obtain ⟨key, reader⟩ := p
    rw [List.map_cons, List.mapM_cons, ← ih, ofKeys]
    cases row.read key reader with
    | error e => rfl
    | ok a =>
      simp only [id_eq, bind, Except.bind]
      cases ofKeys rest row <;> rfl

/-- A tuple reads the cell at each of its positions. -/
theorem positional_eq_mapM (readers : List (CellReader α)) (row : Row) :
    positional readers row =
      (readers.mapIdx fun i reader => row.read (.index i) reader).mapM id := by
  unfold positional
  rw [ofKeys_eq_mapM]
  congr 1
  apply List.ext_getElem?
  intro i
  simp [Function.comp_def]

/-- What a tuple of readers makes of a row. -/
structure ReadsByPosition (readers : List (CellReader α)) (row : Row) : Prop where
  /-- A row is read just if every position can be. -/
  succeeds : (∃ values, positional readers row = .ok values) ↔
    ∀ i reader, readers[i]? = some reader → ∃ a, row.Holds i reader a
  /-- The values of a row that is read are one for each reader, from its position. -/
  values : ∀ values, positional readers row = .ok values ↔ values.length = readers.length ∧
    ∀ (i : Nat) reader a, readers[i]? = some reader → values[i]? = some a → row.Holds i reader a
  /-- Of a row that is not read, the lowest position that cannot be read is the error. -/
  fails : ∀ e, positional readers row = .error e ↔ ∃ i reader,
    readers[i]? = some reader ∧ row.Fails i reader e ∧
      ∀ j < i, ∀ other, readers[j]? = some other → ∃ a, row.Holds j other a
  /-- Columns behind the last position do not count. -/
  extra : ∀ other : Row,
    other.columns.take readers.length = row.columns.take readers.length →
    other.cells.take readers.length = row.cells.take readers.length →
    positional readers other = positional readers row

variable {readers : List (CellReader α)} {row : Row}

theorem positional_eq_ok_iff (hrow : row.isWellFormed = true) {values : List α} :
    positional readers row = .ok values ↔ values.length = readers.length ∧
      ∀ (i : Nat) reader a, readers[i]? = some reader → values[i]? = some a →
        row.Holds i reader a := by
  rw [positional_eq_mapM, mapM_id_eq_ok_iff]
  simp only [← Row.read_index_eq_ok_iff hrow]
  constructor
  · intro h
    refine ⟨by simpa using (congrArg List.length h).symm, ?_⟩
    intro i reader a hreader ha
    simpa [hreader, ha] using congrArg (·[i]?) h
  · rintro ⟨hlength, hread⟩
    apply List.ext_getElem (by simp [hlength])
    intro i hi hi'
    rw [List.length_mapIdx] at hi
    rw [List.length_map] at hi'
    rw [List.getElem_mapIdx, List.getElem_map]
    exact hread i readers[i] values[i] (List.getElem?_eq_getElem hi) (List.getElem?_eq_getElem hi')

theorem positional_eq_error_iff (hrow : row.isWellFormed = true) {e : ClientError} :
    positional readers row = .error e ↔ ∃ i reader, readers[i]? = some reader ∧
      row.Fails i reader e ∧
      ∀ j < i, ∀ other, readers[j]? = some other → ∃ a, row.Holds j other a := by
  rw [positional_eq_mapM, mapM_id_eq_error_iff]
  simp only [← Row.read_index_eq_ok_iff hrow, ← Row.read_index_eq_error_iff hrow, FirstError,
    List.getElem?_mapIdx, Option.map_eq_some_iff]
  constructor
  · rintro ⟨i, ⟨reader, hreader, herror⟩, hbefore⟩
    refine ⟨i, reader, hreader, herror, ?_⟩
    intro j hj other hother
    obtain ⟨a, other', hother', ha⟩ := hbefore j hj
    rw [hother] at hother'
    cases hother'
    exact ⟨a, ha⟩
  · rintro ⟨i, reader, hreader, herror, hbefore⟩
    refine ⟨i, ⟨reader, hreader, herror⟩, ?_⟩
    intro j hj
    have hlt := (List.getElem?_eq_some_iff.1 hreader).1
    have hother : readers[j]? = some readers[j] := List.getElem?_eq_getElem (by omega)
    obtain ⟨a, ha⟩ := hbefore j hj _ hother
    exact ⟨a, _, hother, ha⟩

/-- Only the first columns and cells of a row are looked at. -/
theorem positional_congr {other : Row}
    (hcolumns : other.columns.take readers.length = row.columns.take readers.length)
    (hcells : other.cells.take readers.length = row.cells.take readers.length) :
    positional readers other = positional readers row := by
  rw [positional_eq_mapM, positional_eq_mapM]
  congr 1
  apply List.ext_getElem (by simp)
  intro i hi _
  rw [List.length_mapIdx] at hi
  have hcolumn := congrArg (·[i]?) hcolumns
  have hcell := congrArg (·[i]?) hcells
  simp only [List.getElem?_take_of_lt hi] at hcolumn hcell
  rw [List.getElem_mapIdx, List.getElem_mapIdx, Row.read_index, Row.read_index, hcolumn,
    List.getD_eq_getElem?_getD, List.getD_eq_getElem?_getD, hcell]

theorem readsByPosition (hrow : row.isWellFormed = true) : ReadsByPosition readers row where
  values _ := positional_eq_ok_iff hrow
  fails _ := positional_eq_error_iff hrow
  extra _ := positional_congr
  succeeds := by
    constructor
    · rintro ⟨values, hvalues⟩ i reader hreader
      obtain ⟨hlength, hread⟩ := (positional_eq_ok_iff hrow).1 hvalues
      have hi := (List.getElem?_eq_some_iff.1 hreader).1
      exact ⟨values[i], hread i reader _ hreader (List.getElem?_eq_getElem (by omega))⟩
    · intro hall
      cases hresult : positional readers row with
      | ok values => exact ⟨values, rfl⟩
      | error e =>
        obtain ⟨i, reader, hreader, hfails, -⟩ := (positional_eq_error_iff hrow).1 hresult
        obtain ⟨a, ha⟩ := hall i reader hreader
        rw [← Row.read_index_eq_ok_iff hrow] at ha
        rw [← Row.read_index_eq_error_iff hrow, ha] at hfails
        cases hfails

end RowReader

end QueryBook
