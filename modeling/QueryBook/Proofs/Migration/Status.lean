import QueryBook.Proofs.Migration.AllOrNothing
import QueryBook.Proofs.Patch.Discover

/-!
# What is said to be pending is applied

The patches that are listed as pending are just those that the next attempt runs, if it succeeds,
and the version that is reported afterwards is the one that the attempt returned
(`apply_after_pending`). A database to which no patch was ever applied has nothing pending and
starts at the latest version.
-/

namespace QueryBook

/-- A row is stored in the version table or nowhere. -/
def Contents.WellFormed (c : Contents) : Prop :=
  c.hasTable = false → c.stored = none

instance (c : Contents) : Decidable c.WellFormed :=
  inferInstanceAs (Decidable (_ → _))

/-! ## Queries that ask -/

/-- The statement has the reply, and the database is as it was but for what it still answers. -/
structure Query.Asks (q : Query) (db : Database) (reply : Reply) : Prop where
  result : (q.submit ∅ db).1 = .ok reply
  contents : (q.submit ∅ db).2.contents = db.contents
  answersVersions : (q.submit ∅ db).2.AnswersVersions

namespace VersionQuery

/-- What selecting the row returns. -/
def selection : Option StoredVersion → Reply
  | some s => ⟨[s.row], "SELECT 1"⟩
  | none => ⟨[], "SELECT 0"⟩

variable {db : Database}

theorem asks {q : VersionQuery} (hparams : q.query.params = []) (htypes : q.paramTypes = [])
    (hanswers : db.AnswersVersions) (htable : q.needsTable = true → db.contents.hasTable = true)
    {reply : Reply} (hrun : db.contents.runVersion db.now q [] = .ok (reply, db.contents)) :
    q.query.Asks db reply := by
  have hcells : Database.encodeParams q.paramTypes [] = .ok [] := by
    rw [htypes]
    rfl
  obtain ⟨after, hquery, hcontents, hafter⟩ :=
    submit_of_answers hanswers (Query.bind_empty hparams) hcells htable hrun
  constructor
  · rw [hquery]
  · rwa [hquery]
  · rwa [hquery]

theorem probe_asks (hanswers : db.AnswersVersions) :
    probe.query.Asks db
      ⟨[⟨probe.columns, [some [if db.contents.hasTable then 1 else 0]]⟩], "SELECT 1"⟩ :=
  asks rfl rfl hanswers (fun h => absurd h (by decide)) rfl

theorem select_asks (hanswers : db.AnswersVersions) (htable : db.contents.hasTable = true) :
    select.query.Asks db (selection db.contents.stored) := by
  refine asks rfl rfl hanswers (fun _ => htable) ?_
  cases hstored : db.contents.stored <;> simp only [Contents.runVersion, selection, hstored]

end VersionQuery

/-! ## The stored version -/

theorem Query.Asks.fetchOptional {q : Query} {db : Database} {reply : Reply}
    (h : q.Asks db reply) {α : Type} (reader : RowReader α) :
    q.fetchOptional reader ∅ db = (q.optionalOf reader reply, (q.submit ∅ db).2) :=
  Query.fetchOptional_of_submit (Prod.ext h.result rfl)

namespace Migrator

open Migration (Observer Notice notices)

variable {db : Database}

theorem tableExists_eq (hanswers : db.AnswersVersions) :
    tableExists db = (.ok db.contents.hasTable, (VersionQuery.probe.query.submit ∅ db).2) := by
  have hread : VersionQuery.probe.query.optionalOf (.single .bool)
      ⟨[⟨VersionQuery.probe.columns, [some [if db.contents.hasTable then 1 else 0]]⟩],
        "SELECT 1"⟩ = .ok (some db.contents.hasTable) := by
    cases db.contents.hasTable <;> rfl
  unfold tableExists
  rw [(VersionQuery.probe_asks hanswers).fetchOptional, hread]
  rfl

theorem optionalOf_selection {q : Query} {stored : Option StoredVersion}
    {found : Option VersionRow} (h : Option.Rel StoredVersion.Reads stored found) :
    q.optionalOf VersionRow.reader (VersionQuery.selection stored) = .ok found := by
  cases h with
  | none => rfl
  | some h => exact Query.optionalOf_of_reads h _

/-- The version that is reported is the stored one, and to report it changes nothing. -/
theorem currentVersion_of_answers (hanswers : db.AnswersVersions) (hwell : db.contents.WellFormed) :
    (∀ found, Option.Rel StoredVersion.Reads db.contents.stored found →
        (currentVersion db).1 = .ok found) ∧
      (currentVersion db).2.contents = db.contents ∧
      (currentVersion db).2.AnswersVersions := by
  have hprobe := VersionQuery.probe_asks hanswers
  unfold currentVersion
  rw [tableExists_eq hanswers]
  cases htable : db.contents.hasTable with
  | false =>
    refine ⟨fun found hfound => ?_, hprobe.contents, hprobe.answersVersions⟩
    rw [hwell htable] at hfound
    cases hfound
    rfl
  | true =>
    have hnext : (VersionQuery.probe.query.submit ∅ db).2.contents = db.contents := hprobe.contents
    have hselect := VersionQuery.select_asks hprobe.answersVersions (by rw [hnext, htable])
    rw [hnext] at hselect
    dsimp only
    rw [hselect.fetchOptional]
    refine ⟨fun found hfound => optionalOf_selection hfound, ?_, hselect.answersVersions⟩
    exact hselect.contents.trans hnext

/-! ## Applying what is pending -/

variable {m : Migrator} {row : VersionRow}

/-- The patches that were due are just those that are reported, each as started and as finished. -/
theorem apply_eq_ok_notices (hspares : db.SparesVersions)
    (h : (m.apply (Observer.recorder Notice.ofRun) [] db).result = .ok row) :
    (m.apply (Observer.recorder Notice.ofRun) [] db).observer = notices (m.due db.contents) := by
  obtain ⟨start, db', current, -, -, hversion, hok, -, hobserver⟩ := apply_eq_ok_loop hspares h
  rw [hobserver, Migration.applyFrom_notices hok, hversion]
  rfl

/-- The version that is returned is that of the last patch that was due, or the one at which the run
started. -/
theorem apply_eq_ok_version {ω : Type} {observer : Observer ω} {o : ω} (hspares : db.SparesVersions)
    (h : (m.apply observer o db).result = .ok row) :
    row.version = ((m.due db.contents).getLast?.map (·.version)).getD
      (m.startVersion db.contents) := by
  obtain ⟨start, db', current, -, -, hversion, hok, -⟩ := apply_eq_ok_loop hspares h
  rw [Migration.applyFrom_row hok, hversion]
  rfl

theorem apply_answersVersions {ω : Type} (m : Migrator) (observer : Observer ω) (o : ω)
    (hanswers : db.AnswersVersions) : (m.apply observer o db).database.AnswersVersions :=
  applyThrough_preserves m.session_preserves_answersVersions
    (fun _ c hdb => Database.AnswersVersions.command hdb c) hanswers

/-- On a database without a row nothing is due. -/
theorem due_of_stored_eq_none (hpatches : m.patches.Pairwise fun a b => a.version < b.version)
    {c : Contents} (hstored : c.stored = none) : m.due c = [] := by
  unfold due startVersion
  rw [hstored]
  exact Migration.due_headVersion hpatches

/-- What is listed as pending is what is due, if the row can be read. -/
theorem pending_eq_due (hpatches : m.patches.Pairwise fun a b => a.version < b.version)
    (hanswers : db.AnswersVersions) (hwell : db.contents.WellFormed) {found : Option VersionRow}
    (hfound : Option.Rel StoredVersion.Reads db.contents.stored found) :
    (m.pending db).1 = .ok (m.due db.contents) := by
  have hcurrent := (currentVersion_of_answers hanswers hwell).1 found hfound
  unfold pending
  dsimp only
  rw [hcurrent]
  cases hstored : db.contents.stored with
  | none =>
    rw [hstored] at hfound
    cases hfound
    rw [due_of_stored_eq_none hpatches hstored]
    rfl
  | some s =>
    rw [hstored] at hfound
    cases hfound with
    | some hreads =>
      have hstart : m.startVersion db.contents = s.version := by simp [startVersion, hstored]
      unfold due
      rw [hstart, Migration.due_eq_filter hpatches, ← hreads.version]
      rfl

/-- An attempt that succeeds has read the row, if there was one. -/
theorem exists_found_of_committed {after : Database} (h : m.Committed db after row) :
    ∃ found, Option.Rel StoredVersion.Reads db.contents.stored found := by
  cases hstored : db.contents.stored with
  | none => exact ⟨none, .none⟩
  | some s =>
    have hreads := h.reads.setVersion s.version
    simp only [rowTime, hstored] at hreads
    exact ⟨some _, .some hreads⟩

/-- Status and migration agree. If an attempt that follows the listing of what is pending succeeds,
it has run just the patches that were listed, in their order, and the version that is reported from
then on is the row that it returned. On a database for which no version was reported it has run
nothing and has stored the latest version. -/
theorem apply_after_pending (catalog : Catalog) (patchPrefix : String) (m : Migrator)
    (db : Database) (row : VersionRow) (hm : ofCatalog catalog patchPrefix = .ok m)
    (hwell : db.contents.WellFormed) (hanswers : db.AnswersVersions) (hpatches : m.SparesVersions)
    (h : (m.apply (Observer.recorder Notice.ofRun) [] (m.pending db).2).result = .ok row) :
    let applied := m.apply (Observer.recorder Notice.ofRun) [] (m.pending db).2
    (∃ listed, (m.pending db).1 = .ok listed ∧ applied.observer = notices listed ∧
        applied.database.contents.effects =
          db.contents.effects ++ listed.map m.catalog.effectOf) ∧
      (currentVersion applied.database).1 = .ok (some row) ∧
      ((currentVersion db).1 = .ok none →
        applied.observer = [] ∧ applied.database.contents.effects = db.contents.effects ∧
          row.version = m.latestVersion) := by
  intro applied
  have hsorted := Patch.pairwise_discover (ofCatalog_eq_ok hm).2
  -- listing what is pending has changed nothing that matters to the attempt
  obtain ⟨hcurrent, hcontents, hseen⟩ := currentVersion_of_answers hanswers hwell
  change (m.pending db).2.contents = _ at hcontents
  change (m.pending db).2.AnswersVersions at hseen
  have hspares := hseen.sparesVersions
  have hdone : m.Committed _ applied.database row := apply_eq_ok hspares hpatches h
  have hnotices := apply_eq_ok_notices hspares h
  have hversion := apply_eq_ok_version hspares h
  rw [hcontents] at hnotices hversion
  have heffects : applied.database.contents.effects =
      db.contents.effects ++ (m.due db.contents).map m.catalog.effectOf := by
    rw [hdone.contents, hcontents]
  obtain ⟨found, hfound⟩ := exists_found_of_committed hdone
  rw [hcontents] at hfound
  refine ⟨⟨_, pending_eq_due hsorted hanswers hwell hfound, hnotices, heffects⟩, ?_, ?_⟩
  · have hafter : applied.database.AnswersVersions := m.apply_answersVersions _ _ hseen
    have hwell' : applied.database.contents.WellFormed := by
      rw [hdone.contents]
      exact nofun
    refine (currentVersion_of_answers hafter hwell').1 (some row) ?_
    rw [hdone.contents]
    exact .some hdone.reads
  · intro hreported
    -- no version was reported, so none is stored
    rw [hcurrent found hfound] at hreported
    obtain rfl : found = none := Except.ok.inj hreported
    have hstored : db.contents.stored = none := by
      cases hs : db.contents.stored with
      | none => rfl
      | some s =>
        rw [hs] at hfound
        cases hfound
    have hdue := due_of_stored_eq_none hsorted hstored
    rw [hdue] at hnotices hversion heffects
    refine ⟨hnotices, by simpa using heffects, ?_⟩
    rw [hversion]
    unfold startVersion
    rw [hstored]
    rfl

theorem ofCatalog_userPatches : ofCatalog userPatches.catalog "patch-" = .ok userPatches := by
  have hcollect : Patch.collect "patch-" [] (userPatches.catalog.toList.map (·.name)) =
      .ok [⟨1, "patch-1-users"⟩, ⟨2, "patch-2-mail"⟩] := by
    decide +kernel
  exact ofCatalog_of_collect hcollect (by simp) (.refl _) (by decide)

/-- The second patch is pending and is then applied; on a database without the table nothing is. -/
theorem apply_after_pending_userPatches :
    ((userPatches.pending (atVersionOne [])).1 = .ok [⟨2, "patch-2-mail"⟩] ∧
        (currentVersion (userPatches.apply (Observer.recorder Notice.ofRun) []
          (userPatches.pending (atVersionOne [])).2).database).1 =
            .ok (some ⟨2, Instant.ofMicros 0⟩)) ∧
      (userPatches.apply (Observer.recorder Notice.ofRun) []
        (userPatches.pending (.ofContents ⟨false, none, []⟩ 7 [])).2).observer = [] := by
  have hpatches : userPatches.SparesVersions := by decide +kernel
  have hpending : (userPatches.pending (atVersionOne [])).1 = .ok [⟨2, "patch-2-mail"⟩] := by
    decide +kernel
  have hok : (userPatches.apply (Observer.recorder Notice.ofRun) []
      (userPatches.pending (atVersionOne [])).2).result = .ok ⟨2, Instant.ofMicros 0⟩ := by
    decide +kernel
  have hnone : (currentVersion (.ofContents ⟨false, none, []⟩ 7 [])).1 = .ok none := by
    decide +kernel
  have hseeded : (userPatches.apply (Observer.recorder Notice.ofRun) []
      (userPatches.pending (.ofContents ⟨false, none, []⟩ 7 [])).2).result =
        .ok ⟨2, Instant.ofMicros 7⟩ := by
    decide +kernel
  refine ⟨⟨hpending, ?_⟩, ?_⟩
  · exact (apply_after_pending _ _ _ _ _ ofCatalog_userPatches (by decide) (by decide) hpatches
      hok).2.1
  · exact ((apply_after_pending _ _ _ _ _ ofCatalog_userPatches (by decide) (by decide) hpatches
      hseeded).2.2 hnone).1

end Migrator

end QueryBook
