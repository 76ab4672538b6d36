import QueryBook.Proofs.Migration.Failure
import QueryBook.Proofs.Migration.Status

/-!
# Where nothing stands in the way

What has been said of attempts to apply patches leaves it open whether they succeed. They do where no
rule of the database keeps them from it: where the transaction can be opened and committed, the
queries on the version table do what their text says, and every patch that is due has a statement
that can be run (`Migrator.exists_apply_eq_ok_of_unhindered`).
-/

namespace QueryBook

/-! ## Statements of patches -/

/-- The rule does not make a statement with this text fail, if it is sent without parameters. -/
def Rule.Admits (sql : String) (r : Rule) : Prop :=
  r.sql = sql → r.passes = true ∨ r.params = [] ∧ r.prepareFailure = none ∧ r.failure = none

instance (sql : String) (r : Rule) : Decidable (r.Admits sql) :=
  inferInstanceAs (Decidable (_ → _))

theorem Database.submit_of_admits {db : Database} {sql : String}
    (hsend : sql.toList.contains nul = false) (hother : VersionQuery.ofText? sql = none)
    (h : ∀ r ∈ db.rules, r.Admits sql) : ∃ reply after, db.submit sql [] = (.ok reply, after) := by
  have hnone : encodeParams [] [] = .ok [] := rfl
  unfold submit prepare
  cases hrule : (Rule.use sql db.rules).1 with
  | none =>
    generalize Rule.use sql db.rules = used at hrule ⊢
    obtain ⟨rule, rules⟩ := used
    simp only at hrule
    subst hrule
    simp only [hsend, hother, hnone, run, Bool.false_eq_true, if_false]
    exact ⟨_, _, rfl⟩
  | some r =>
    obtain ⟨hmem, hsql, hpass⟩ := Rule.of_use_eq_some hrule
    obtain ⟨hparams, hprepare, hrun⟩ : r.params = [] ∧ r.prepareFailure = none ∧ r.failure = none := by
      simpa [hpass] using h r hmem hsql
    generalize Rule.use sql db.rules = used at hrule ⊢
    obtain ⟨rule, rules⟩ := used
    simp only at hrule
    subst hrule
    simp only [hsend, hparams, hprepare, hrun, hnone, run, Bool.false_eq_true, if_false]
    exact ⟨_, _, rfl⟩

/-- The patch has a statement, and nothing keeps it from being run. -/
def Catalog.Admits (c : Catalog) (p : Patch) (db : Database) : Prop :=
  ∃ q, c.get? p.name = some q ∧ q.params = [] ∧ q.body.toList.contains Database.nul = false ∧
    VersionQuery.ofText? q.body = none ∧ ∀ r ∈ db.rules, r.Admits q.body

/-! ## Queries on the version table -/

namespace VersionQuery

variable {db : Database}

theorem create_of_answers (hanswers : db.AnswersVersions) :
    ∃ n after, create.query.execute ∅ db = (.ok n, after) := by
  obtain ⟨after, hsubmit, -⟩ := submit_of_answers (q := create) hanswers (Query.bind_empty rfl) rfl
    nofun rfl
  exact ⟨_, after, Query.execute_of_submit hsubmit⟩

theorem select_of_answers (hanswers : db.AnswersVersions) (htable : db.contents.hasTable = true)
    {found : Option VersionRow} (hfound : Option.Rel StoredVersion.Reads db.contents.stored found) :
    ∃ after, select.query.fetchOptional VersionRow.reader ∅ db = (.ok found, after) := by
  rw [(select_asks hanswers htable).fetchOptional, Migrator.optionalOf_selection hfound]
  exact ⟨_, rfl⟩

theorem insert_of_answers (hanswers : db.AnswersVersions) (htable : db.contents.hasTable = true)
    (hstored : db.contents.stored = none) {version : Int64} {row : VersionRow}
    (hreads : StoredVersion.Reads ⟨version, db.now⟩ row) :
    ∃ after, insert.query.fetchOne VersionRow.reader (argument version) db = (.ok row, after) := by
  have hrun : db.contents.runVersion db.now insert [cell version] =
      .ok (⟨[StoredVersion.row ⟨version, db.now⟩], "INSERT 0 1"⟩,
        { db.contents with stored := some ⟨version, db.now⟩ }) := by
    simp only [Contents.runVersion, hstored, cell, Wire.readInt_intBytes_int64]
  obtain ⟨after, hsubmit, -⟩ := submit_of_answers hanswers (insert.bind_argument rfl version) rfl
    (fun _ => htable) hrun
  exact ⟨after, Query.fetchOne_of_submit hsubmit (Query.optionalOf_of_reads hreads _)⟩

theorem update_of_answers (hanswers : db.AnswersVersions) (htable : db.contents.hasTable = true)
    (version : Int64) : ∃ n after, update.query.execute (argument version) db = (.ok n, after) := by
  obtain ⟨reply, contents, hrun⟩ : ∃ reply contents,
      db.contents.runVersion db.now update [cell version] = .ok (reply, contents) := by
    cases hstored : db.contents.stored with
    | none => exact ⟨⟨[], "UPDATE 0"⟩, db.contents, by simp only [Contents.runVersion, hstored]⟩
    | some s =>
      exact ⟨⟨[], "UPDATE 1"⟩, { db.contents with stored := some { s with version := version } },
        by simp only [Contents.runVersion, hstored, cell, Wire.readInt_intBytes_int64]⟩
  obtain ⟨after, hsubmit, -⟩ := submit_of_answers hanswers (update.bind_argument rfl version) rfl
    (fun _ => htable) hrun
  exact ⟨_, after, Query.execute_of_submit hsubmit⟩

end VersionQuery

/-! ## The calls of a run -/

namespace Migrator

open Migration (Session Observer)

variable {ω : Type} {m : Migrator} {db : Database}

/-- The row that the contents say to start from is found, if a date can be given for its time. -/
theorem findRow_of_answers (hanswers : db.AnswersVersions) {row : VersionRow}
    (hreads : StoredVersion.Reads ⟨m.startVersion db.contents, rowTime db⟩ row) :
    ∃ db₁, m.session.findRow m.patches db = (.ok row, db₁) := by
  have hspares := hanswers.sparesVersions
  obtain ⟨n, db₁, hcreate⟩ := VersionQuery.create_of_answers hanswers
  have hensure : m.session.ensureTable db = (.ok (), db₁) := congrArg dropValue hcreate
  have hanswers₁ : db₁.AnswersVersions := by
    simpa only [hensure] using m.session_preserves_answersVersions.ensureTable db hanswers
  obtain ⟨hcontents₁, -⟩ := ensureTable_eq_ok hspares hensure
  have htable₁ : db₁.contents.hasTable = true := by rw [hcontents₁]
  have hstored₁ : db₁.contents.stored = db.contents.stored := by rw [hcontents₁]
  cases hstored : db.contents.stored with
  | some s =>
    rw [hstored] at hstored₁
    simp only [startVersion, rowTime, hstored] at hreads
    have hfound : Option.Rel StoredVersion.Reads db₁.contents.stored (some row) := by
      rw [hstored₁]
      exact .some hreads
    obtain ⟨db₂, hread⟩ := VersionQuery.select_of_answers hanswers₁ htable₁ hfound
    exact ⟨db₂, Session.findRow_of_read hensure hread⟩
  | none =>
    rw [hstored] at hstored₁
    simp only [startVersion, rowTime, hstored] at hreads
    have hfound : Option.Rel StoredVersion.Reads db₁.contents.stored none := by
      rw [hstored₁]
      exact .none
    obtain ⟨db₂, hselect⟩ := VersionQuery.select_of_answers hanswers₁ htable₁ hfound
    have hread : m.session.readVersion db₁ = (.ok none, db₂) := hselect
    -- the new row gets the time of the database, which no statement changes
    have hsends₁ : db.Sends db₁ := by
      simpa only [hensure] using (m.session_preserves_sends db).ensureTable db (.refl db)
    have hsends₂ : db.Sends db₂ := by
      simpa only [hread] using (m.session_preserves_sends db).readVersion db₁ hsends₁
    have hanswers₂ : db₂.AnswersVersions := by
      simpa only [hread] using m.session_preserves_answersVersions.readVersion db₁ hanswers₁
    obtain ⟨-, hcontents₂, -⟩ := readVersion_eq_ok hanswers₁.sparesVersions hread
    obtain ⟨db₃, hseed⟩ := VersionQuery.insert_of_answers hanswers₂ (by rw [hcontents₂, htable₁])
      (by rw [hcontents₂, hstored₁]) (by rw [hsends₂.now]; exact hreads)
    exact ⟨db₃, Session.findRow_of_seed hensure hread hseed⟩

theorem runPatch_of_admits {p : Patch} (h : m.catalog.Admits p db) :
    ∃ after, m.session.runPatch p db = (.ok (), after) := by
  obtain ⟨q, hq, hparams, hsend, hother, hrules⟩ := h
  obtain ⟨reply, after, hsubmit⟩ := Database.submit_of_admits hsend hother hrules
  refine ⟨after, ?_⟩
  show dropValue (m.catalog.execute p.name ∅ db) = _
  unfold Catalog.execute Catalog.withQuery Catalog.lookup
  rw [hq]
  dsimp only
  have hquery : q.submit ∅ db = (.ok reply, after) := by
    unfold Query.submit
    rw [Query.bind_empty hparams]
    dsimp only
    rw [hsubmit]
    rfl
  rw [Query.execute_of_submit hquery]
  rfl

/-- Nothing keeps these patches from being applied, one after another, and then committed. -/
structure Proceeds (m : Migrator) (patches : List Patch) (db : Database) : Prop where
  hasTable : db.contents.hasTable = true
  answersVersions : db.AnswersVersions
  allowsCommit : db.Allows .commit
  admits : ∀ p ∈ patches, m.catalog.Admits p db

/-- Applying the first patch succeeds and leaves nothing in the way of the others. -/
theorem Proceeds.applyPatch {p : Patch} {rest : List Patch} (h : m.Proceeds (p :: rest) db) :
    ∃ after, m.session.applyPatch p db = (.ok (), after) ∧ m.Proceeds rest after := by
  obtain ⟨hadmits, hrest⟩ := List.forall_mem_cons.1 h.admits
  have hrules {P : Rule → Prop} (hP : ∀ r uses, P r → P { r with uses := uses })
      (hdb : ∀ r ∈ db.rules, P r) : ∀ r ∈ (m.session.applyPatch p db).2.rules, P r :=
    (m.session_preserves_rules hP).applyPatch p hdb
  obtain ⟨db₁, hrun⟩ := runPatch_of_admits hadmits
  have hanswers₁ : db₁.AnswersVersions := by
    simpa only [hrun] using m.session_preserves_answersVersions.runPatch p db h.answersVersions
  have htable₁ : db₁.contents.hasTable = true := by
    obtain ⟨q, hq, -, -, hother, -⟩ := hadmits
    have hbody : m.catalog.statementOf p = q.body := by simp [Catalog.statementOf, hq]
    rw [← hbody] at hother
    rw [(runPatch_eq_ok hother hrun).1]
    exact h.hasTable
  obtain ⟨n, after, hupdate⟩ := VersionQuery.update_of_answers hanswers₁ htable₁ p.version
  have hstore : m.session.storeVersion p.version db₁ = (.ok (), after) :=
    congrArg dropValue hupdate
  have happly : m.session.applyPatch p db = (.ok (), after) := by
    unfold Session.applyPatch
    rw [hrun]
    exact hstore
  rw [happly] at hrules
  refine ⟨after, happly, ?_, hrules (fun _ _ hr => hr) h.answersVersions,
    hrules (fun _ _ hr => hr) h.allowsCommit, fun q hq => ?_⟩
  · rw [(storeVersion_eq_ok hanswers₁.sparesVersions hstore).1]
    exact htable₁
  · obtain ⟨query, hquery, hparams, hsend, hother, hfree⟩ := hrest q hq
    exact ⟨query, hquery, hparams, hsend, hother, hrules (fun _ _ hr => hr) hfree⟩

theorem Proceeds.applyPatches {patches : List Patch} (h : m.Proceeds patches db) :
    ∃ after, m.session.applyPatches patches db = (none, after) ∧ m.Proceeds [] after := by
  induction patches generalizing db with
  | nil => exact ⟨db, rfl, h⟩
  | cons p rest ih =>
    obtain ⟨db₁, happly, hrest⟩ := h.applyPatch
    unfold Session.applyPatches
    rw [happly]
    exact ih hrest

end Migrator

/-! ## Whole attempts -/

/-- Nothing but the statements of patches keeps an attempt to apply them from succeeding. -/
structure Database.Unhindered (db : Database) : Prop where
  allowsStart : db.Allows .start
  allowsCommit : db.Allows .commit
  answersVersions : db.AnswersVersions
  /-- A date can be given for the time that the version row has or gets. -/
  dated : ∃ createdAt, Instant.ofMicros? (Migrator.rowTime db).toInt = some createdAt

namespace Migrator

open Migration (Session Observer)

variable {ω : Type} {m : Migrator} {db : Database}

theorem failure?_of_unhindered (h : db.Unhindered)
    (hadmits : ∀ p ∈ m.due db.contents, m.catalog.Admits p db) : m.failure? db = none := by
  obtain ⟨createdAt, hcreatedAt⟩ := h.dated
  obtain ⟨start, hcommand⟩ := h.allowsStart.command_eq_ok
  have hbegin : db.beginTransaction = (.ok (), start) := by
    unfold Database.beginTransaction
    rw [hcommand]
  have hopens := Database.opens_of_beginTransaction hbegin
  have hrules {P : Rule → Prop} (hP : ∀ r uses, P r → P { r with uses := uses })
      (hdb : ∀ r ∈ db.rules, P r) : ∀ r ∈ start.rules, P r := by
    simpa only [hcommand] using Database.forall_rules_command hP hdb .start
  have hanswers : start.AnswersVersions := hrules (fun _ _ hr => hr) h.answersVersions
  have hreads : StoredVersion.Reads ⟨m.startVersion start.contents, rowTime start⟩
      ⟨m.startVersion start.contents, createdAt⟩ := by
    refine ⟨rfl, ?_⟩
    simpa [rowTime, hopens.contents, hopens.now] using hcreatedAt
  obtain ⟨db₁, hfind⟩ := findRow_of_answers hanswers hreads
  obtain ⟨hreached, -⟩ := reached_of_findRow hanswers.sparesVersions hfind
  have hrules₁ {P : Rule → Prop} (hP : ∀ r uses, P r → P { r with uses := uses })
      (hdb : ∀ r ∈ db.rules, P r) : ∀ r ∈ db₁.rules, P r := by
    simpa only [hfind] using (m.session_preserves_rules hP).findRow m.patches (hrules hP hdb)
  have hproceeds : m.Proceeds (m.due db.contents) db₁ := by
    refine ⟨by rw [hreached.contents], hrules₁ (fun _ _ hr => hr) h.answersVersions,
      hrules₁ (fun _ _ hr => hr) h.allowsCommit, fun p hp => ?_⟩
    obtain ⟨q, hq, hparams, hsend, hother, hfree⟩ := hadmits p hp
    exact ⟨q, hq, hparams, hsend, hother, hrules₁ (fun _ _ hr => hr) hfree⟩
  have hdue : Migration.due (m.startVersion start.contents) m.patches = m.due db.contents := by
    rw [hopens.contents]
    rfl
  obtain ⟨db₂, happly, hend⟩ := hproceeds.applyPatches
  obtain ⟨after, hcommit⟩ := hend.allowsCommit.commit_eq_ok
  rw [← hdue] at happly
  exact failureThrough_eq_none hbegin hfind happly hcommit

/-- Where nothing stands in the way, an attempt succeeds. -/
theorem exists_apply_eq_ok_of_unhindered (h : db.Unhindered)
    (hadmits : ∀ p ∈ m.due db.contents, m.catalog.Admits p db) (observer : Observer ω) (o : ω) :
    ∃ row, (m.apply observer o db).result = .ok row :=
  exists_apply_eq_ok_iff.2 (failure?_of_unhindered h hadmits)

end Migrator

end QueryBook
