import QueryBook.Migration.Migrator
import QueryBook.Proofs.Arguments
import QueryBook.Proofs.Database.Submit
import QueryBook.Proofs.Wire.Word

/-!
# Queries on the version table

What the four queries on the version table that a run of patches sends have done to the contents of
a database, provided that they succeed: the table is made, the row is read, written or changed. A
version that is sent comes back as it was.
-/

namespace QueryBook

/-- The version is sent as a number of 64 bits. -/
def VersionQuery.cell (version : Int64) : Cell :=
  some (Wire.intBytes 8 version.toInt)

/-- The log entry of a query on the version table that is run. -/
def VersionQuery.entry (q : VersionQuery) (params : List Cell) : LogEntry :=
  .statement q.query.body (some params)

/-- A stored row reads as this row of the version table. -/
structure StoredVersion.Reads (s : StoredVersion) (row : VersionRow) : Prop where
  version : row.version = s.version
  createdAt : Instant.ofMicros? s.createdAt.toInt = some row.createdAt

/-- Changing the version does not change the time. -/
theorem StoredVersion.Reads.setVersion {s : StoredVersion} {row : VersionRow} (h : s.Reads row)
    (version : Int64) : Reads { s with version := version } { row with version := version } where
  version := rfl
  createdAt := h.createdAt

theorem StoredVersion.Reads.unique {s : StoredVersion} {row row' : VersionRow} (h : s.Reads row)
    (h' : s.Reads row') : row = row' := by
  have hversion := h.version.trans h'.version.symm
  have hcreated := Option.some.inj (h.createdAt.symm.trans h'.createdAt)
  cases row
  cases row'
  cases hversion
  cases hcreated
  rfl

theorem CellReader.int64_read (version : Int64) :
    int64.read .int8 (VersionQuery.cell version) = .ok version := by
  simp [read, int64, fixed, exactly, VersionQuery.cell, Wire.length_intBytes,
    Wire.readInt_intBytes_int64, Except.map]

theorem CellReader.instant_read_eq_ok {createdAt : Int64} {t : Instant} :
    instant.read .timestamptz (VersionQuery.cell createdAt) = .ok t ↔
      Instant.ofMicros? createdAt.toInt = some t := by
  have hbytes := Wire.readInt_intBytes 7 createdAt.le_toInt createdAt.toInt_lt
  simp only [read, instant, VersionQuery.cell, Wire.length_intBytes, hbytes]
  cases Instant.ofMicros? createdAt.toInt <;> simp

/-- Reading a row gives the version and the time that are stored, if a date can be given for the
time. -/
theorem StoredVersion.reader_eq_ok {s : StoredVersion} {row : VersionRow} :
    VersionRow.reader s.row = .ok row ↔ s.Reads row := by
  have hversion : s.row.read (.named "version") .int64 =
      (CellReader.int64.read .int8 (VersionQuery.cell s.version)).mapError (.cell 0) := rfl
  have hcreated : s.row.read (.named "created_at") .instant =
      (CellReader.instant.read .timestamptz (VersionQuery.cell s.createdAt)).mapError (.cell 1) :=
    rfl
  rw [CellReader.int64_read] at hversion
  unfold VersionRow.reader
  rw [hversion, hcreated]
  constructor
  · intro h
    cases htime : CellReader.instant.read .timestamptz (VersionQuery.cell s.createdAt) with
    | error e =>
      rw [htime] at h
      cases h
    | ok t =>
      rw [htime] at h
      cases h
      exact ⟨rfl, CellReader.instant_read_eq_ok.1 htime⟩
  · intro h
    rw [CellReader.instant_read_eq_ok.2 h.createdAt]
    obtain ⟨version, createdAt⟩ := row
    cases h.version
    rfl

/-- The only row of a reply with one stored row. -/
theorem Query.optionalOf_row {q : Query} {s : StoredVersion} {tag : String}
    {result : Option VersionRow}
    (h : q.optionalOf VersionRow.reader ⟨[s.row], tag⟩ = .ok result) :
    ∃ row, result = some row ∧ s.Reads row := by
  have hwell : s.row.isWellFormed = true := rfl
  simp only [Query.optionalOf, Query.onlyRow, hwell, if_true] at h
  cases hread : VersionRow.reader s.row with
  | error e =>
    rw [hread] at h
    cases h
  | ok row =>
    rw [hread] at h
    cases h
    exact ⟨row, rfl, StoredVersion.reader_eq_ok.1 hread⟩

theorem Query.optionalOf_of_reads {q : Query} {s : StoredVersion} {row : VersionRow} (h : s.Reads row)
    (tag : String) : q.optionalOf VersionRow.reader ⟨[s.row], tag⟩ = .ok (some row) := by
  have hwell : s.row.isWellFormed = true := rfl
  simp only [Query.optionalOf, Query.onlyRow, hwell, if_true, StoredVersion.reader_eq_ok.2 h]
  rfl

/-! ## Running the queries -/

namespace VersionQuery

theorem bind_argument (q : VersionQuery) (h : q.query.params = ["version"]) (version : Int64) :
    q.query.bind (argument version) = .ok [.int64 version] := by
  rw [Query.bind_eq_ok_iff, h]
  simp [Arguments.select, argument, NameMap.get?_insert]

theorem encodeParams_version {version : Int64} {cells : List Cell}
    (h : Database.encodeParams [.int8] [.int64 version] = .ok cells) : cells = [cell version] := by
  have henc : Database.encodeParams [.int8] [.int64 version] = .ok [cell version] := rfl
  rw [henc] at h
  exact (Except.ok.inj h).symm

theorem encodeParams_nil {cells : List Cell} (h : Database.encodeParams [] [] = .ok cells) :
    cells = [] :=
  (Except.ok.inj h).symm

end VersionQuery

namespace VersionQuery

variable {db after : Database}

/-- A query on the version table that succeeds has sent its values and done what its text says. -/
theorem submit_eq_ok (hspares : db.SparesVersions) {q : VersionQuery} {args : Arguments}
    {values : List Value} {reply : Reply} (hbind : q.query.bind args = .ok values)
    (h : q.query.submit args db = (.ok reply, after)) :
    ∃ cells, Database.encodeParams q.paramTypes values = .ok cells ∧
      db.contents.runVersion db.now q cells = .ok (reply, after.contents) ∧
      after.log = db.log ++ [q.entry cells] := by
  obtain ⟨values', hbind', hsubmit⟩ := Query.submit_eq_ok h
  rw [hbind] at hbind'
  cases hbind'
  obtain ⟨cells, contents, hcells, hrun, rfl⟩ := Database.submit_version hspares hsubmit
  exact ⟨cells, hcells, hrun, rfl⟩

/-- No query on the version table holds a character that cannot be sent. -/
theorem nul_not_mem (q : VersionQuery) : q.query.body.toList.contains Database.nul = false := by
  cases q <;> decide +kernel

/-- Where no rule answers it, a query on the version table that is bound does what its text says. -/
theorem submit_of_answers (hanswers : db.AnswersVersions) {q : VersionQuery} {args : Arguments}
    {values : List Value} {cells : List Cell} {reply : Reply} {contents : Contents}
    (hbind : q.query.bind args = .ok values)
    (hcells : Database.encodeParams q.paramTypes values = .ok cells)
    (htable : q.needsTable = true → db.contents.hasTable = true)
    (hrun : db.contents.runVersion db.now q cells = .ok (reply, contents)) :
    ∃ after, q.query.submit args db = (.ok reply, after) ∧ after.contents = contents ∧
      after.AnswersVersions := by
  obtain ⟨after, hsubmit, hcontents⟩ :=
    db.submit_of_answers hanswers q.nul_not_mem htable hcells hrun
  have hafter := hanswers.submit q.query.body values
  rw [hsubmit] at hafter
  refine ⟨after, ?_, hcontents, hafter⟩
  unfold Query.submit
  rw [hbind]
  dsimp only
  rw [hsubmit]
  rfl

/-- Creating the table adds it and touches nothing else. -/
theorem create_eq_ok (hspares : db.SparesVersions) {n : Nat}
    (h : create.query.execute ∅ db = (.ok n, after)) :
    after.contents = { db.contents with hasTable := true } ∧
      after.log = db.log ++ [create.entry []] := by
  obtain ⟨reply, hsub⟩ := Query.execute_eq_ok h
  obtain ⟨cells, hcells, hrun, hlog⟩ := submit_eq_ok hspares (Query.bind_empty rfl) hsub
  obtain rfl := encodeParams_nil hcells
  obtain ⟨-, hcontents⟩ := Prod.mk.inj (Except.ok.inj hrun)
  exact ⟨hcontents.symm, hlog⟩

/-- Selecting reads the row, if there is one, and changes nothing. -/
theorem select_eq_ok (hspares : db.SparesVersions) {result : Option VersionRow}
    (h : select.query.fetchOptional VersionRow.reader ∅ db = (.ok result, after)) :
    (match db.contents.stored with
      | some s => ∃ row, result = some row ∧ s.Reads row
      | none => result = none) ∧
      after.contents = db.contents ∧ after.log = db.log ++ [select.entry []] := by
  obtain ⟨reply, hsub, hresult⟩ := Query.fetchOptional_eq_ok h
  obtain ⟨cells, hcells, hrun, hlog⟩ := submit_eq_ok hspares (Query.bind_empty rfl) hsub
  obtain rfl := encodeParams_nil hcells
  cases hstored : db.contents.stored with
  | none =>
    simp only [Contents.runVersion, hstored] at hrun
    obtain ⟨rfl, hcontents⟩ := Prod.mk.inj (Except.ok.inj hrun)
    cases hresult
    exact ⟨rfl, hcontents.symm, hlog⟩
  | some s =>
    simp only [Contents.runVersion, hstored] at hrun
    obtain ⟨rfl, hcontents⟩ := Prod.mk.inj (Except.ok.inj hrun)
    exact ⟨Query.optionalOf_row hresult, hcontents.symm, hlog⟩

/-- Inserting writes the first row, with the time of the database, and reads it. -/
theorem insert_eq_ok (hspares : db.SparesVersions) {version : Int64} {row : VersionRow}
    (h : insert.query.fetchOne VersionRow.reader (argument version) db = (.ok row, after)) :
    db.contents.stored = none ∧ StoredVersion.Reads ⟨version, db.now⟩ row ∧
      after.contents = { db.contents with stored := some ⟨version, db.now⟩ } ∧
      after.log = db.log ++ [insert.entry [cell version]] := by
  obtain ⟨reply, hsub, hresult⟩ := Query.fetchOne_eq_ok h
  obtain ⟨cells, hcells, hrun, hlog⟩ := submit_eq_ok hspares (insert.bind_argument rfl version) hsub
  obtain rfl := encodeParams_version hcells
  cases hstored : db.contents.stored with
  | some s =>
    simp only [Contents.runVersion, hstored] at hrun
    cases hrun
  | none =>
    simp only [Contents.runVersion, hstored, cell, Wire.readInt_intBytes_int64] at hrun
    obtain ⟨rfl, hcontents⟩ := Prod.mk.inj (Except.ok.inj hrun)
    obtain ⟨row', hrow, hreads⟩ := Query.optionalOf_row hresult
    cases hrow
    exact ⟨rfl, hreads, hcontents.symm, hlog⟩

/-- Updating changes the version of the row, if there is one. -/
theorem update_eq_ok (hspares : db.SparesVersions) {version : Int64} {n : Nat}
    (h : update.query.execute (argument version) db = (.ok n, after)) :
    after.contents = { db.contents with
        stored := db.contents.stored.map fun s => { s with version := version } } ∧
      after.log = db.log ++ [update.entry [cell version]] := by
  obtain ⟨reply, hsub⟩ := Query.execute_eq_ok h
  obtain ⟨cells, hcells, hrun, hlog⟩ := submit_eq_ok hspares (update.bind_argument rfl version) hsub
  obtain rfl := encodeParams_version hcells
  refine ⟨?_, hlog⟩
  cases hstored : db.contents.stored with
  | none =>
    simp only [Contents.runVersion, hstored] at hrun
    obtain ⟨-, hcontents⟩ := Prod.mk.inj (Except.ok.inj hrun)
    rw [← hcontents, Option.map_none, ← hstored]
  | some s =>
    simp only [Contents.runVersion, hstored, cell, Wire.readInt_intBytes_int64] at hrun
    simp [← (Prod.mk.inj (Except.ok.inj hrun)).2]

end VersionQuery

end QueryBook
