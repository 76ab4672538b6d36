import QueryBook.Proofs.Database.VersionTable
import QueryBook.Proofs.Migration.Run

/-!
# A session inside a transaction

The five calls of a run of patches on a database: they send statements and nothing else
(`session_preserves_sends`), and each one that succeeds changes the contents and the log in just one
way.
-/

namespace QueryBook

/-- The statement of a patch. -/
def Catalog.statementOf (c : Catalog) (p : Patch) : String :=
  ((c.get? p.name).map (·.body)).getD ""

/-- What a patch leaves in a database. -/
def Catalog.effectOf (c : Catalog) (p : Patch) : Effect :=
  ⟨c.statementOf p, []⟩

/-! ## Calls send statements -/

section

variable {P : Database → Prop}

/-- What every statement keeps is kept by a query, also by one that cannot be bound. -/
theorem Query.submit_keeps (hkeeps : ∀ db sql values, P db → P (db.submit sql values).2)
    (q : Query) (args : Arguments) {db : Database} (h : P db) : P (q.submit args db).2 := by
  unfold Query.submit
  split
  · exact h
  · exact hkeeps db q.body _ h

theorem Query.execute_snd (q : Query) (args : Arguments) (db : Database) :
    (q.execute args db).2 = (q.submit args db).2 := rfl

theorem Query.fetchOptional_snd {α : Type} (q : Query) (reader : RowReader α) (args : Arguments)
    (db : Database) : (q.fetchOptional reader args db).2 = (q.submit args db).2 := rfl

theorem Query.fetchOne_snd {α : Type} (q : Query) (reader : RowReader α) (args : Arguments)
    (db : Database) : (q.fetchOne reader args db).2 = (q.submit args db).2 := rfl

theorem Catalog.execute_keeps (hkeeps : ∀ db sql values, P db → P (db.submit sql values).2)
    (c : Catalog) (name : String) (args : Arguments) {db : Database} (h : P db) :
    P (c.execute name args db).2 := by
  unfold Catalog.execute Catalog.withQuery
  split
  · exact h
  · rw [Query.execute_snd]
    exact Query.submit_keeps hkeeps _ args h

end

namespace Migrator

variable (m : Migrator)

theorem dropValue_snd {α : Type} (r : Except Error α × Database) : (dropValue r).2 = r.2 := rfl

/-- What every statement keeps, every call of a run keeps. -/
theorem session_preserves {P : Database → Prop}
    (hkeeps : ∀ db sql values, P db → P (db.submit sql values).2) : m.session.Preserves P := by
  constructor
  · intro db h
    show P (dropValue _).2
    rw [dropValue_snd, Query.execute_snd]
    exact Query.submit_keeps hkeeps _ ∅ h
  · intro db h
    show P (Query.fetchOptional _ _ _ _).2
    rw [Query.fetchOptional_snd]
    exact Query.submit_keeps hkeeps _ ∅ h
  · intro version db h
    show P (Query.fetchOne _ _ _ _).2
    rw [Query.fetchOne_snd]
    exact Query.submit_keeps hkeeps _ (VersionQuery.argument version) h
  · intro p db h
    show P (dropValue _).2
    rw [dropValue_snd]
    exact Catalog.execute_keeps hkeeps m.catalog p.name ∅ h
  · intro version db h
    show P (dropValue _).2
    rw [dropValue_snd, Query.execute_snd]
    exact Query.submit_keeps hkeeps _ (VersionQuery.argument version) h

/-- Whatever the calls of a run end in, nothing but statements has been sent. -/
theorem session_preserves_sends (start : Database) : m.session.Preserves start.Sends :=
  m.session_preserves fun db sql values h => h.trans (db.sends_submit sql values)

theorem session_preserves_sparesVersions : m.session.Preserves Database.SparesVersions :=
  m.session_preserves fun db sql values h => (db.sends_submit sql values).sparesVersions h

/-- What does not depend on how often rules can still be used, every call keeps. -/
theorem session_preserves_rules {P : Rule → Prop}
    (hP : ∀ r uses, P r → P { r with uses := uses }) :
    m.session.Preserves fun db => ∀ r ∈ db.rules, P r :=
  m.session_preserves fun _ sql values h => Database.forall_rules_submit hP h sql values

theorem session_preserves_answersVersions : m.session.Preserves Database.AnswersVersions :=
  m.session_preserves_rules fun _ _ hr => hr

/-! ## What a call that succeeds has done -/

/-- No patch is a query on the version table. -/
def SparesVersions : Prop :=
  ∀ p ∈ m.patches, VersionQuery.ofText? (m.catalog.statementOf p) = none

instance : Decidable m.SparesVersions :=
  inferInstanceAs (Decidable (∀ p ∈ m.patches, _))

variable {m} {db after : Database}

theorem dropValue_eq_ok {α : Type} {r : Except Error α × Database}
    (h : dropValue r = (.ok (), after)) : ∃ a, r = (.ok a, after) := by
  obtain ⟨result, db⟩ := r
  cases result with
  | error e => cases h
  | ok a =>
    cases h
    exact ⟨a, rfl⟩

theorem ensureTable_eq_ok (hspares : db.SparesVersions)
    (h : m.session.ensureTable db = (.ok (), after)) :
    after.contents = { db.contents with hasTable := true } ∧
      after.log = db.log ++ [VersionQuery.create.entry []] := by
  obtain ⟨n, hn⟩ := dropValue_eq_ok h
  exact VersionQuery.create_eq_ok hspares hn

theorem session_readVersion (m : Migrator) (db : Database) : m.session.readVersion db =
    VersionQuery.select.query.fetchOptional VersionRow.reader ∅ db := rfl

theorem readVersion_eq_ok (hspares : db.SparesVersions) {found : Option VersionRow}
    (h : m.session.readVersion db = (.ok found, after)) :
    (match db.contents.stored with
      | some s => ∃ row, found = some row ∧ s.Reads row
      | none => found = none) ∧
      after.contents = db.contents ∧ after.log = db.log ++ [VersionQuery.select.entry []] := by
  rw [session_readVersion] at h
  exact VersionQuery.select_eq_ok hspares h

theorem session_seedVersion (m : Migrator) (version : Int64) (db : Database) :
    m.session.seedVersion version db =
      VersionQuery.insert.query.fetchOne VersionRow.reader (VersionQuery.argument version) db := rfl

theorem seedVersion_eq_ok (hspares : db.SparesVersions) {version : Int64} {row : VersionRow}
    (h : m.session.seedVersion version db = (.ok row, after)) :
    db.contents.stored = none ∧ StoredVersion.Reads ⟨version, db.now⟩ row ∧
      after.contents = { db.contents with stored := some ⟨version, db.now⟩ } ∧
      after.log = db.log ++ [VersionQuery.insert.entry [VersionQuery.cell version]] := by
  rw [session_seedVersion] at h
  exact VersionQuery.insert_eq_ok hspares h

theorem storeVersion_eq_ok (hspares : db.SparesVersions) {version : Int64}
    (h : m.session.storeVersion version db = (.ok (), after)) :
    after.contents = { db.contents with
        stored := db.contents.stored.map fun s => { s with version := version } } ∧
      after.log = db.log ++ [VersionQuery.update.entry [VersionQuery.cell version]] := by
  obtain ⟨n, hn⟩ := dropValue_eq_ok h
  exact VersionQuery.update_eq_ok hspares hn

/-- Without arguments only a query without parameters can be bound. -/
theorem bind_empty_eq_ok {q : Query} {values : List Value} (h : q.bind ∅ = .ok values) :
    values = [] := by
  have hselect := Query.bind_eq_ok_iff.1 h
  cases hparams : q.params with
  | nil =>
    rw [hparams] at hselect
    exact (Except.ok.inj hselect).symm
  | cons param rest =>
    rw [hparams] at hselect
    cases hselect

/-- A patch that runs leaves its effect and nothing else. -/
theorem runPatch_eq_ok {p : Patch} (hother : VersionQuery.ofText? (m.catalog.statementOf p) = none)
    (h : m.session.runPatch p db = (.ok (), after)) :
    after.contents = db.contents.addEffect (m.catalog.statementOf p) [] ∧
      after.log = db.log ++ [.statement (m.catalog.statementOf p) (some [])] := by
  obtain ⟨n, hn⟩ := dropValue_eq_ok h
  unfold Catalog.execute Catalog.withQuery Catalog.lookup at hn
  cases hq : m.catalog.get? p.name with
  | none =>
    rw [hq] at hn
    cases hn
  | some q =>
    rw [hq] at hn
    dsimp only at hn
    have hbody : m.catalog.statementOf p = q.body := by simp [Catalog.statementOf, hq]
    rw [hbody] at hother ⊢
    obtain ⟨reply, hsub⟩ := Query.execute_eq_ok hn
    obtain ⟨values, hbind, hsubmit⟩ := Query.submit_eq_ok hsub
    obtain rfl := bind_empty_eq_ok hbind
    obtain ⟨types, cells, hcells, rfl⟩ := Database.submit_other hother hsubmit
    -- no values were sent, so the statement has no parameters
    unfold Database.encodeParams at hcells
    split at hcells
    · rename_i hlen
      obtain rfl : types = [] := List.length_eq_zero_iff.1 hlen
      cases hcells
      exact ⟨rfl, rfl⟩
    · cases hcells

end Migrator

end QueryBook
