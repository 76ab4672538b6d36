import Mathlib.Control.Monad.Basic
import QueryBook.Proofs.Database.Transaction
import QueryBook.Proofs.Migration.DatabaseSession

/-!
# All or nothing

Applying patches to a database either commits everything that was due together with the new version
or leaves the database as it was (`apply_all_or_nothing`). The invariant of the run is `Reached`:
after some patches the contents hold just their effects and the row stands at the current version.
-/

namespace QueryBook.Migrator

open Migration (Session Observer headVersion applyAll applyFrom LoopInvariant)

variable {ω : Type} (m : Migrator)

/-- The version at which a run on these contents starts. -/
def startVersion (c : Contents) : Int64 :=
  match c.stored with
  | some s => s.version
  | none => headVersion m.patches

/-- The patches that a run on these contents gets to run. -/
def due (c : Contents) : List Patch :=
  Migration.due (m.startVersion c) m.patches

/-- What is sent before the first patch. -/
def opening (c : Contents) : List LogEntry :=
  [VersionQuery.create.entry [], VersionQuery.select.entry []] ++
    match c.stored with
    | some _ => []
    | none => [VersionQuery.insert.entry [VersionQuery.cell (headVersion m.patches)]]

/-- What is sent for one patch: its statement and then its version. -/
def messages (p : Patch) : List LogEntry :=
  [.statement (m.catalog.statementOf p) (some []),
    VersionQuery.update.entry [VersionQuery.cell p.version]]

/-- What is sent by a run that ends well, before the commit. -/
def traffic (c : Contents) : List LogEntry :=
  .command .start :: (m.opening c ++ (m.due c).flatMap m.messages)

theorem commit_not_mem_traffic (c : Contents) : .command .commit ∉ m.traffic c := by
  intro h
  simp only [traffic, opening, messages, VersionQuery.entry, List.mem_cons, List.mem_append,
    List.mem_flatMap, List.not_mem_nil, reduceCtorEq, LogEntry.command.injEq, or_false,
    false_or, and_false, exists_false] at h
  split at h <;> simp at h

/-- The time in the version row after a run: that of the row before it, or that of a new row. -/
def rowTime (db : Database) : Int64 :=
  match db.contents.stored with
  | some s => s.createdAt
  | none => db.now

/-- Where a run on `start` stands when it has run the patches `done` and `current` is stored. -/
structure Reached (start : Database) (done : List Patch) (current : VersionRow) (db : Database) :
    Prop where
  contents : db.contents =
    { hasTable := true
      stored := some ⟨current.version, rowTime start⟩
      effects := start.contents.effects ++ done.map m.catalog.effectOf }
  reads : StoredVersion.Reads ⟨current.version, rowTime start⟩ current
  log : db.log = start.log ++ m.opening start.contents ++ done.flatMap m.messages
  sparesVersions : db.SparesVersions

/-- The loop over patches keeps the invariant. -/
theorem reached_loop (hm : m.SparesVersions) (start : Database) (observer : Observer ω) :
    LoopInvariant m.session observer m.patches fun done current db _ =>
      m.Reached start done current db := by
  constructor
  · intro done current db o p _ h _
    exact h
  · intro done current db db₁ db₂ o p hp h _ hrun hstore
    -- the patch adds its effect, and then the row is set to its version
    have hkeeps := m.session_preserves_sparesVersions
    have hspares₁ : db₁.SparesVersions := by
      simpa only [hrun] using hkeeps.runPatch p db h.sparesVersions
    have hspares₂ : db₂.SparesVersions := by
      simpa only [hstore] using hkeeps.storeVersion p.version db₁ hspares₁
    obtain ⟨hcontents₁, hlog₁⟩ := runPatch_eq_ok (hm p hp) hrun
    obtain ⟨hcontents₂, hlog₂⟩ := storeVersion_eq_ok hspares₁ hstore
    constructor
    · rw [hcontents₂, hcontents₁, h.contents]
      simp [Contents.addEffect, Catalog.effectOf]
    · exact h.reads.setVersion p.version
    · rw [hlog₂, hlog₁, h.log]
      simp [messages]
    · exact hspares₂

section

variable {start db₁ db₂ : Database} {current : VersionRow}

/-- Where a row is stored, the loop starts from it. -/
theorem reached_of_read (hspares : start.SparesVersions)
    (hensure : m.session.ensureTable start = (.ok (), db₁))
    (hread : m.session.readVersion db₁ = (.ok (some current), db₂)) :
    m.Reached start [] current db₂ ∧ current.version = m.startVersion start.contents := by
  have hkeeps := m.session_preserves_sparesVersions
  have hspares₁ : db₁.SparesVersions := by
    simpa only [hensure] using hkeeps.ensureTable start hspares
  have hspares₂ : db₂.SparesVersions := by
    simpa only [hread] using hkeeps.readVersion db₁ hspares₁
  obtain ⟨hcontents₁, hlog₁⟩ := ensureTable_eq_ok hspares hensure
  obtain ⟨hfound, hcontents₂, hlog₂⟩ := readVersion_eq_ok hspares₁ hread
  rw [hcontents₁] at hfound
  cases hstored : start.contents.stored with
  | none =>
    rw [hstored] at hfound
    cases hfound
  | some s =>
    rw [hstored] at hfound
    obtain ⟨row, hrow, hreads⟩ := hfound
    cases hrow
    refine ⟨⟨?_, ?_, ?_, hspares₂⟩, ?_⟩
    · rw [hcontents₂, hcontents₁]
      simp [rowTime, hstored, hreads.version]
    · simpa [rowTime, hstored, hreads.version] using hreads
    · rw [hlog₂, hlog₁]
      simp [opening, hstored]
    · simp [startVersion, hstored, hreads.version]

/-- Where none is stored, the loop starts from the version of the last patch. -/
theorem reached_of_seed {db' : Database} (hspares : start.SparesVersions)
    (hensure : m.session.ensureTable start = (.ok (), db₁))
    (hread : m.session.readVersion db₁ = (.ok none, db'))
    (hseed : m.session.seedVersion (headVersion m.patches) db' = (.ok current, db₂)) :
    m.Reached start [] current db₂ ∧ current.version = m.startVersion start.contents := by
  have hkeeps := m.session_preserves_sparesVersions
  -- the row gets the time of the database, which no statement changes
  have hsends₁ : start.Sends db₁ := by
    simpa only [hensure] using (m.session_preserves_sends start).ensureTable start (.refl start)
  have hsends' : start.Sends db' := by
    simpa only [hread] using (m.session_preserves_sends start).readVersion db₁ hsends₁
  have hnow : db'.now = start.now := hsends'.now
  have hspares₁ : db₁.SparesVersions := hsends₁.sparesVersions hspares
  have hspares' : db'.SparesVersions := hsends'.sparesVersions hspares
  have hspares₂ : db₂.SparesVersions := by
    simpa only [hseed] using hkeeps.seedVersion (headVersion m.patches) db' hspares'
  obtain ⟨hcontents₁, hlog₁⟩ := ensureTable_eq_ok hspares hensure
  obtain ⟨-, hcontents', hlog'⟩ := readVersion_eq_ok hspares₁ hread
  obtain ⟨hnone, hreads, hcontents₂, hlog₂⟩ := seedVersion_eq_ok hspares' hseed
  have hstored : start.contents.stored = none := by
    rw [hcontents', hcontents₁] at hnone
    exact hnone
  have hversion : current.version = headVersion m.patches := hreads.version
  refine ⟨⟨?_, ?_, ?_, hspares₂⟩, ?_⟩
  · rw [hcontents₂, hcontents', hcontents₁]
    simp [rowTime, hstored, hversion, hnow]
  · simpa [rowTime, hstored, hversion, hnow] using hreads
  · rw [hlog₂, hlog', hlog₁]
    simp [opening, hstored]
  · simp [startVersion, hstored, hversion]

/-- The calls before the loop establish the invariant. -/
theorem reached_start (hspares : start.SparesVersions) {observer : Observer ω} {o : ω}
    {row : VersionRow} (hok : (applyAll m.session observer m.patches start o).result = .ok row) :
    ∃ db current, m.Reached start [] current db ∧ current.version = m.startVersion start.contents ∧
      (applyFrom m.session observer current db o m.patches).result = .ok row ∧
      (applyAll m.session observer m.patches start o).session =
        (applyFrom m.session observer current db o m.patches).session ∧
      (applyAll m.session observer m.patches start o).observer =
        (applyFrom m.session observer current db o m.patches).observer := by
  obtain ⟨db₁, db₂, current, hensure, hread, hrun⟩ := Migration.applyAll_eq_ok hok
  refine ⟨db₂, current, ?_⟩
  rcases hread with hread | ⟨db', hread, hseed⟩
  · obtain ⟨hreached, hversion⟩ := m.reached_of_read hspares hensure hread
    exact ⟨hreached, hversion, hrun⟩
  · obtain ⟨hreached, hversion⟩ := m.reached_of_seed hspares hensure hread hseed
    exact ⟨hreached, hversion, hrun⟩

end

/-! ## The whole transaction -/

/-- What an attempt that has failed leaves behind: the same contents, no open transaction, and no
commit among what was sent. -/
structure Unchanged (before after : Database) : Prop where
  contents : after.contents = before.contents
  closed : after.snapshot = none
  noCommit : ∃ sent, after.log = before.log ++ sent ∧ .command .commit ∉ sent

/-- What an attempt that has succeeded leaves behind: the table, the row at the returned version,
the effects of just the patches that were due, in order, and one commit after everything else. -/
structure Committed (before after : Database) (row : VersionRow) : Prop where
  contents : after.contents =
    { hasTable := true
      stored := some ⟨row.version, rowTime before⟩
      effects := before.contents.effects ++ (m.due before.contents).map m.catalog.effectOf }
  reads : StoredVersion.Reads ⟨row.version, rowTime before⟩ row
  closed : after.snapshot = none
  log : after.log = before.log ++ m.traffic before.contents ++ [.command .commit]
  once : .command .commit ∉ m.traffic before.contents

/-! ### Any session

The session is arbitrary here. That of a migrator holds long texts, and a proof about it would make
the kernel read them. -/

section

variable {session : Session Database} {patches : List Patch} {observer : Observer ω} {o : ω}
variable {db : Database}

/-- What every call and every command keeps, an attempt keeps. -/
theorem applyThrough_preserves {P : Database → Prop} (hsession : session.Preserves P)
    (hcommand : ∀ db c, P db → P (Database.command db c).2) (h : P db) :
    P (applyThrough session observer patches o db).database := by
  unfold applyThrough Database.beginTransaction
  have hstart := hcommand db .start h
  generalize db.command .start = outcome at hstart ⊢
  obtain ⟨result, start⟩ := outcome
  cases result with
  | error e => exact hcommand start .rollback hstart
  | ok u =>
    have hrun : P (applyAll session observer patches start o).session :=
      Migration.applyAll_preserves hsession patches start o hstart
    dsimp only
    generalize applyAll session observer patches start o = run at hrun ⊢
    split
    · exact hcommand run.session .rollback hrun
    · have hcommit := hcommand run.session .commit hrun
      unfold Database.commit
      generalize run.session.command .commit = outcome at hcommit ⊢
      obtain ⟨result, after⟩ := outcome
      cases result with
      | error e => exact hcommit
      | ok u => exact hcommit

/-- An attempt that fails, for whatever reason, leaves the contents as they were; unless it was the
commit that failed, none was sent. -/
theorem applyThrough_eq_error (hsession : ∀ start : Database, session.Preserves start.Sends)
    (hopen : db.snapshot = none) (hback : db.CanRollBack) {e : Error}
    (h : (applyThrough session observer patches o db).result = .error e) :
    (applyThrough session observer patches o db).database.contents = db.contents ∧
      (applyThrough session observer patches o db).database.snapshot = none ∧
      ((∀ cause, e ≠ .transaction .commit cause) → ∃ sent,
        (applyThrough session observer patches o db).database.log = db.log ++ sent ∧
          .command .commit ∉ sent) := by
  unfold applyThrough at h ⊢
  rcases hbegin : db.beginTransaction with ⟨e' | u, start⟩
  · obtain ⟨hcontents, hclosed, hlog⟩ := Database.beginTransaction_eq_error hopen hback hbegin
    exact ⟨hcontents, hclosed, fun _ => ⟨_, hlog, by simp⟩⟩
  have hopens := Database.opens_of_beginTransaction hbegin
  -- whatever becomes of the run, it has sent no command, so the kept contents are still there
  have hsends : start.Sends (applyAll session observer patches start o).session :=
    Migration.applyAll_preserves (hsession start) patches start o (.refl start)
  rw [hbegin] at h
  dsimp only at h ⊢
  generalize applyAll session observer patches start o = run at h hsends ⊢
  cases hrun : run.result with
  | error e' =>
    -- a statement failed and the transaction was taken back
    obtain ⟨sent, hsent⟩ := hsends.log
    dsimp only
    rw [Database.abandon_eq (hsends.canRollBack (hopens.canRollBack hback))]
    refine ⟨?_, rfl, fun _ => ⟨.command .start ::
      (sent.map fun e => .statement e.1 e.2) ++ [.command .rollback], ?_, ?_⟩⟩
    · simp [hsends.snapshot, hopens.snapshot]
    · simp [hsent, hopens.log]
    · simp
  | ok row =>
    rw [hrun] at h
    dsimp only at h ⊢
    rcases hcommit : run.session.commit with ⟨e' | u, after⟩
    · -- the commit failed and took the transaction back
      rw [hcommit] at h
      cases h
      obtain ⟨⟨cause, rfl⟩, hcontents, hclosed⟩ := Database.commit_eq_error hcommit
      refine ⟨?_, hclosed, fun hother => absurd rfl (hother cause)⟩
      rw [hcontents, hsends.snapshot, hopens.snapshot]
      rfl
    · rw [hcommit] at h
      cases h

/-- An attempt that succeeds has opened a transaction, run its patches and committed. -/
theorem applyThrough_eq_ok {row : VersionRow}
    (h : (applyThrough session observer patches o db).result = .ok row) :
    ∃ start, db.Opens start ∧ (applyAll session observer patches start o).result = .ok row ∧
      (applyAll session observer patches start o).session.commit =
        (.ok (), (applyThrough session observer patches o db).database) ∧
      (applyThrough session observer patches o db).observer =
        (applyAll session observer patches start o).observer := by
  unfold applyThrough at h ⊢
  rcases hbegin : db.beginTransaction with ⟨e | u, start⟩
  · rw [hbegin] at h
    cases h
  refine ⟨start, Database.opens_of_beginTransaction hbegin, ?_⟩
  rw [hbegin] at h
  dsimp only at h ⊢
  generalize applyAll session observer patches start o = run at h ⊢
  cases hrun : run.result with
  | error e =>
    rw [hrun] at h
    cases h
  | ok row' =>
    rw [hrun] at h
    dsimp only at h ⊢
    rcases hcommit : run.session.commit with ⟨e | u, after⟩
    · rw [hcommit] at h
      cases h
    · rw [hcommit] at h
      cases h
      exact ⟨rfl, rfl, rfl⟩

end

/-! ### Migrators -/

variable {m} {observer : Observer ω} {o : ω} {db : Database}

/-- The loop in an attempt that succeeds. -/
theorem apply_eq_ok_loop (hspares : db.SparesVersions) {row : VersionRow}
    (h : (m.apply observer o db).result = .ok row) :
    ∃ start db' current, db.Opens start ∧ m.Reached start [] current db' ∧
      current.version = m.startVersion db.contents ∧
      (applyFrom m.session observer current db' o m.patches).result = .ok row ∧
      (applyFrom m.session observer current db' o m.patches).session.commit =
        (.ok (), (m.apply observer o db).database) ∧
      (m.apply observer o db).observer =
        (applyFrom m.session observer current db' o m.patches).observer := by
  obtain ⟨start, hopens, hrun, hcommit, hobserver⟩ := applyThrough_eq_ok h
  obtain ⟨db', current, hstart, hversion, hok, hsession, hobserver'⟩ :=
    m.reached_start (hopens.sparesVersions hspares) hrun
  rw [hopens.contents] at hversion
  rw [hsession] at hcommit
  exact ⟨start, db', current, hopens, hstart, hversion, hok, hcommit, hobserver.trans hobserver'⟩

/-- An attempt that succeeds has committed just what was due. -/
theorem apply_eq_ok (hspares : db.SparesVersions) (hm : m.SparesVersions) {row : VersionRow}
    (h : (m.apply observer o db).result = .ok row) :
    m.Committed db (m.apply observer o db).database row := by
  obtain ⟨start, db', current, hopens, hstart, hversion, hok, hcommit, -⟩ :=
    apply_eq_ok_loop hspares h
  have hreached := Migration.applyFrom_ok (m.reached_loop hm start observer) hstart hok
  rw [hversion, List.nil_append] at hreached
  obtain ⟨hcontents, hclosed, hlog⟩ := Database.commit_eq_ok hcommit
  have htime : rowTime start = rowTime db := by simp [rowTime, hopens.contents, hopens.now]
  constructor
  · rw [hcontents, hreached.contents, htime, hopens.contents]
    rfl
  · rw [← htime]
    exact hreached.reads
  · exact hclosed
  · rw [hlog, hreached.log, hopens.log, hopens.contents]
    simp [traffic, due]
  · exact m.commit_not_mem_traffic _

/-- All or nothing: an attempt that fails leaves the database as it was, and has sent no commit
unless that is what failed; an attempt that succeeds has committed everything that was due. -/
theorem apply_all_or_nothing (m : Migrator) (observer : Observer ω) (o : ω) (db : Database)
    (hopen : db.snapshot = none) (hback : db.CanRollBack) :
    (∀ e, (m.apply observer o db).result = .error e → (∀ cause, e ≠ .transaction .commit cause) →
        Unchanged db (m.apply observer o db).database) ∧
      ∀ row, (m.apply observer o db).result = .ok row → db.SparesVersions → m.SparesVersions →
        m.Committed db (m.apply observer o db).database row := by
  constructor
  · intro e h hother
    obtain ⟨hcontents, hclosed, hsent⟩ :=
      applyThrough_eq_error m.session_preserves_sends hopen hback h
    exact ⟨hcontents, hclosed, hsent hother⟩
  · intro row h hspares hm
    exact apply_eq_ok hspares hm h

/-- Two patches, of which the first has been applied to the databases below. -/
def userPatches : Migrator where
  catalog := (∅ : Catalog).insertAll
    [⟨"patch-1-users", "CREATE TABLE users (id BIGINT)", []⟩,
      ⟨"patch-2-mail", "ALTER TABLE users ADD mail TEXT", []⟩]
  patches := [⟨1, "patch-1-users"⟩, ⟨2, "patch-2-mail"⟩]

def atVersionOne (rules : List Rule) : Database :=
  .ofContents ⟨true, some ⟨1, 0⟩, [⟨"CREATE TABLE users (id BIGINT)", []⟩]⟩ 0 rules

/-- The version cannot be stored. -/
def storeFails : Database :=
  atVersionOne [{
    sql := VersionQuery.update.query.body
    params := [.int8]
    failure := some { sqlState := "53100", message := "disk full" } }]

/-- The second patch is applied, or nothing is because its version cannot be stored. -/
theorem apply_userPatches :
    (storeFails.snapshot = none ∧ storeFails.CanRollBack ∧
      (userPatches.apply Observer.silent () storeFails).result =
        .error (.execute "quire.update-db-version"
          (.server { sqlState := "53100", message := "disk full" })) ∧
      Unchanged storeFails (userPatches.apply Observer.silent () storeFails).database) ∧
    ((atVersionOne []).snapshot = none ∧ (atVersionOne []).CanRollBack ∧
      (atVersionOne []).SparesVersions ∧ userPatches.SparesVersions ∧
      (userPatches.apply Observer.silent () (atVersionOne [])).result =
        .ok ⟨2, Instant.ofMicros 0⟩ ∧
      userPatches.Committed (atVersionOne [])
        (userPatches.apply Observer.silent () (atVersionOne [])).database
        ⟨2, Instant.ofMicros 0⟩) := by
  have hback : storeFails.CanRollBack := by decide +kernel
  have hback' : (atVersionOne []).CanRollBack := by decide +kernel
  have hspares : (atVersionOne []).SparesVersions := by decide +kernel
  have hpatches : userPatches.SparesVersions := by decide +kernel
  have herror : (userPatches.apply Observer.silent () storeFails).result =
      .error (.execute "quire.update-db-version"
        (.server { sqlState := "53100", message := "disk full" })) := by
    decide +kernel
  have hok : (userPatches.apply Observer.silent () (atVersionOne [])).result =
      .ok ⟨2, Instant.ofMicros 0⟩ := by
    decide +kernel
  refine ⟨⟨rfl, hback, herror, ?_⟩, rfl, hback', hspares, hpatches, hok, ?_⟩
  · exact (apply_all_or_nothing userPatches Observer.silent () storeFails rfl hback).1 _ herror
      (by simp)
  · exact (apply_all_or_nothing userPatches Observer.silent () (atVersionOne []) rfl hback').2 _ hok
      hspares hpatches

end QueryBook.Migrator
