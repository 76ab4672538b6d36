import QueryBook.Proofs.Migration.AllOrNothing
import QueryBook.Proofs.Operation

/-!
# Where applying patches fails

What an attempt to apply patches does to a database, told without an observer and without the
patches that are passed over: a transaction is opened, the row to start from is found, the patches
that are due are applied one after another, and the transaction is committed
(`Migrator.failureThrough`). The attempt ends in an error just if one of these fails, and with its
error (`applyThrough_result`). Whatever failed, the contents that a client leaves behind are those
that it found (`contents_disconnect_of_eq_error`).
-/

namespace QueryBook

namespace Database

variable {db after : Database}

theorem exists_of_beginTransaction_eq_error {e : Error}
    (h : db.beginTransaction = (.error e, after)) : ∃ cause, e = .transaction .begin cause := by
  unfold beginTransaction at h
  rcases hstart : db.command .start with ⟨cause | u, started⟩
  · rw [hstart] at h
    cases h
    exact ⟨_, rfl⟩
  · rw [hstart] at h
    cases h

/-- Without an open transaction a client that goes away leaves the database as it is. -/
theorem disconnect_eq_self (h : db.snapshot = none) : db.disconnect = db := by
  unfold disconnect restore
  rw [h, Option.getD_none, ← h]

/-- Also where taking a transaction back fails, it is taken back when the client goes away. -/
theorem contents_disconnect_abandon (db : Database) :
    db.abandon.disconnect.contents = db.snapshot.getD db.contents := by
  unfold abandon command
  generalize Rule.use TransactionCommand.rollback.sql db.rules = used
  obtain ⟨rule, rules⟩ := used
  dsimp only
  cases rule.bind (·.failure) <;> rfl

theorem contents_disconnect_of_beginTransaction (hopen : db.snapshot = none) {e : Error}
    (h : db.beginTransaction = (.error e, after)) : after.disconnect.contents = db.contents := by
  unfold beginTransaction command at h
  generalize Rule.use TransactionCommand.start.sql db.rules = used at h
  obtain ⟨rule, rules⟩ := used
  dsimp only at h
  generalize rule.bind (·.failure) = failure at h
  cases failure with
  | none => cases h
  | some cause =>
    obtain ⟨-, rfl⟩ := Prod.mk.inj h
    rw [contents_disconnect_abandon]
    show db.snapshot.getD db.contents = db.contents
    rw [hopen]
    rfl

end Database

namespace Migration

variable {σ ω : Type}

namespace Session

/-- Runs a patch and stores its version. -/
def applyPatch (session : Session σ) (p : Patch) (s : σ) : Except Error Unit × σ :=
  match session.runPatch p s with
  | (.error e, s) => (.error e, s)
  | (.ok (), s) => session.storeVersion p.version s

/-- Applies patches one after another, up to the first that fails. -/
def applyPatches (session : Session σ) : List Patch → σ → Option (Patch × Error) × σ
  | [], s => (none, s)
  | p :: rest, s =>
    match session.applyPatch p s with
    | (.error e, s) => (some (p, e), s)
    | (.ok (), s) => session.applyPatches rest s

/-- Finds the row to start from. Where there is none, it is the version of the last patch. -/
def findRow (session : Session σ) (patches : List Patch) (s : σ) : Except Error VersionRow × σ :=
  match session.ensureTable s with
  | (.error e, s) => (.error e, s)
  | (.ok (), s) =>
    match session.readVersion s with
    | (.error e, s) => (.error e, s)
    | (.ok (some current), s) => (.ok current, s)
    | (.ok none, s) => session.seedVersion (headVersion patches) s

theorem findRow_eq_ok {session : Session σ} {patches : List Patch} {s s' : σ} {current : VersionRow}
    (h : session.findRow patches s = (.ok current, s')) :
    ∃ s₁, session.ensureTable s = (.ok (), s₁) ∧
      (session.readVersion s₁ = (.ok (some current), s') ∨
        ∃ s₂, session.readVersion s₁ = (.ok none, s₂) ∧
          session.seedVersion (headVersion patches) s₂ = (.ok current, s')) := by
  unfold findRow at h
  rcases hensure : session.ensureTable s with ⟨e | u, s₁⟩
  · rw [hensure] at h
    cases h
  rw [hensure] at h
  dsimp only at h
  refine ⟨s₁, rfl, ?_⟩
  rcases hread : session.readVersion s₁ with ⟨e | _ | row, s₂⟩
  · rw [hread] at h
    cases h
  · rw [hread] at h
    exact .inr ⟨s₂, rfl, h⟩
  · rw [hread] at h
    cases h
    exact .inl rfl

section

variable {session : Session σ} {patches : List Patch} {s s₁ s₂ : σ} {row : VersionRow}

theorem findRow_of_read (hensure : session.ensureTable s = (.ok (), s₁))
    (hread : session.readVersion s₁ = (.ok (some row), s₂)) :
    session.findRow patches s = (.ok row, s₂) := by
  unfold findRow
  rw [hensure]
  dsimp only
  rw [hread]

theorem findRow_of_seed {s₃ : σ} (hensure : session.ensureTable s = (.ok (), s₁))
    (hread : session.readVersion s₁ = (.ok none, s₂))
    (hseed : session.seedVersion (headVersion patches) s₂ = (.ok row, s₃)) :
    session.findRow patches s = (.ok row, s₃) := by
  unfold findRow
  rw [hensure]
  dsimp only
  rw [hread]
  exact hseed

end

/-- What every call keeps is kept by finding the row. -/
theorem Preserves.findRow {session : Session σ} {P : σ → Prop} (h : session.Preserves P)
    (patches : List Patch) {s : σ} (hs : P s) : P (session.findRow patches s).2 := by
  unfold Session.findRow
  have hensure := h.ensureTable s hs
  generalize session.ensureTable s = outcome at hensure ⊢
  obtain ⟨e | u, s₁⟩ := outcome
  · exact hensure
  have hread := h.readVersion s₁ hensure
  dsimp only
  generalize session.readVersion s₁ = outcome at hread ⊢
  obtain ⟨e | _ | current, s₂⟩ := outcome
  · exact hread
  · exact h.seedVersion (headVersion patches) s₂ hread
  · exact hread

/-- What every call keeps is kept by applying a patch. -/
theorem Preserves.applyPatch {session : Session σ} {P : σ → Prop} (h : session.Preserves P)
    (p : Patch) {s : σ} (hs : P s) : P (session.applyPatch p s).2 := by
  unfold Session.applyPatch
  have hrun := h.runPatch p s hs
  generalize session.runPatch p s = outcome at hrun ⊢
  obtain ⟨e | u, s₁⟩ := outcome
  · exact hrun
  · exact h.storeVersion p.version s₁ hrun

end Session

/-- Every error of a call has the property. -/
structure Session.FailsWith (session : Session σ) (P : Error → Prop) : Prop where
  ensureTable : ∀ {s s' e}, session.ensureTable s = (.error e, s') → P e
  readVersion : ∀ {s s' e}, session.readVersion s = (.error e, s') → P e
  seedVersion : ∀ {version s s' e}, session.seedVersion version s = (.error e, s') → P e
  runPatch : ∀ {p s s' e}, session.runPatch p s = (.error e, s') → P e
  storeVersion : ∀ {version s s' e}, session.storeVersion version s = (.error e, s') → P e

theorem Session.FailsWith.findRow {session : Session σ} {P : Error → Prop}
    (h : session.FailsWith P) {patches : List Patch} {s s' : σ} {e : Error}
    (herror : session.findRow patches s = (.error e, s')) : P e := by
  unfold Session.findRow at herror
  rcases hensure : session.ensureTable s with ⟨e' | u, s₁⟩
  · rw [hensure] at herror
    cases herror
    exact h.ensureTable hensure
  rw [hensure] at herror
  dsimp only at herror
  rcases hread : session.readVersion s₁ with ⟨e' | _ | current, s₂⟩
  · rw [hread] at herror
    cases herror
    exact h.readVersion hread
  · rw [hread] at herror
    exact h.seedVersion herror
  · rw [hread] at herror
    cases herror

theorem Session.FailsWith.applyPatch {session : Session σ} {P : Error → Prop}
    (h : session.FailsWith P) {p : Patch} {s s' : σ} {e : Error}
    (herror : session.applyPatch p s = (.error e, s')) : P e := by
  unfold Session.applyPatch at herror
  rcases hrun : session.runPatch p s with ⟨e' | u, s₁⟩
  · rw [hrun] at herror
    cases herror
    exact h.runPatch hrun
  · rw [hrun] at herror
    exact h.storeVersion herror

theorem Session.FailsWith.applyPatches {session : Session σ} {P : Error → Prop}
    (h : session.FailsWith P) {patches : List Patch} {s s' : σ} {p : Patch} {e : Error}
    (herror : session.applyPatches patches s = (some (p, e), s')) : P e := by
  induction patches generalizing s with
  | nil => cases herror
  | cons q rest ih =>
    unfold Session.applyPatches at herror
    rcases happly : session.applyPatch q s with ⟨e' | u, s₁⟩
    · rw [happly] at herror
      cases herror
      exact h.applyPatch happly
    · rw [happly] at herror
      exact ih herror

/-- The loop ends in an error just if a patch that is due fails. -/
theorem applyFrom_result (session : Session σ) (observer : Observer ω) (patches : List Patch)
    (o : ω) (current : VersionRow) (s : σ) :
    (applyFrom session observer current s o patches).session =
        (session.applyPatches (due current.version patches) s).2 ∧
      match (session.applyPatches (due current.version patches) s).1 with
      | some (_, e) => (applyFrom session observer current s o patches).result = .error e
      | none => ∃ row, (applyFrom session observer current s o patches).result = .ok row := by
  induction patches generalizing current s o with
  | nil => exact ⟨rfl, current, rfl⟩
  | cons p rest ih =>
    unfold applyFrom due
    split
    · exact ih _ current s
    · unfold Session.applyPatches Session.applyPatch
      rcases session.runPatch p s with ⟨e | u, s₁⟩
      · exact ⟨rfl, rfl⟩
      dsimp only
      rcases session.storeVersion p.version s₁ with ⟨e | u, s₂⟩
      · exact ⟨rfl, rfl⟩
      · exact ih _ { current with version := p.version } s₂

/-- A run finds the row to start from and then goes through the patches. -/
theorem applyAll_eq (session : Session σ) (observer : Observer ω) (patches : List Patch) (o : ω)
    (s : σ) :
    match session.findRow patches s with
    | (.error e, s₁) => (applyAll session observer patches s o).result = .error e ∧
        (applyAll session observer patches s o).session = s₁ ∧
        (applyAll session observer patches s o).observer = o
    | (.ok current, s₁) =>
        (applyAll session observer patches s o).result =
          (applyFrom session observer current s₁ o patches).result ∧
        (applyAll session observer patches s o).session =
          (applyFrom session observer current s₁ o patches).session ∧
        (applyAll session observer patches s o).observer =
          (applyFrom session observer current s₁ o patches).observer := by
  unfold applyAll Session.findRow
  rcases session.ensureTable s with ⟨e | u, s₁⟩
  · exact ⟨rfl, rfl, rfl⟩
  dsimp only
  rcases session.readVersion s₁ with ⟨e | _ | current, s₂⟩
  · exact ⟨rfl, rfl, rfl⟩
  · dsimp only
    rcases session.seedVersion (headVersion patches) s₂ with ⟨e | current, s₃⟩
    · exact ⟨rfl, rfl, rfl⟩
    · exact ⟨rfl, rfl, rfl⟩
  · exact ⟨rfl, rfl, rfl⟩

end Migration

namespace Migrator

open Migration (Session Observer applyAll applyFrom)

/-- What can fail when patches are applied. -/
inductive Stage where
  /-- Opening the transaction and finding the row to start from. -/
  | opening
  /-- Running this patch or storing its version. -/
  | patch (p : Patch)
  | commit
  deriving DecidableEq, Repr

/-- What fails first when patches are applied through a session in one transaction, and its
error. -/
def failureThrough (session : Session Database) (patches : List Patch) (db : Database) :
    Option (Stage × Error) :=
  match db.beginTransaction with
  | (.error e, _) => some (.opening, e)
  | (.ok (), db) =>
    match session.findRow patches db with
    | (.error e, _) => some (.opening, e)
    | (.ok current, db) =>
      match session.applyPatches (Migration.due current.version patches) db with
      | (some (p, e), _) => some (.patch p, e)
      | (none, db) =>
        match db.commit with
        | (.error e, _) => some (.commit, e)
        | (.ok (), _) => none

/-- What fails first when the patches of a migrator are applied. -/
def failure? (m : Migrator) (db : Database) : Option (Stage × Error) :=
  failureThrough m.session m.patches db

section

variable {ω : Type} {session : Session Database} {patches : List Patch} {observer : Observer ω}
variable {o : ω} {db : Database}

theorem failureThrough_eq_none {start db₁ db₂ after : Database} {current : VersionRow}
    (hbegin : db.beginTransaction = (.ok (), start))
    (hfind : session.findRow patches start = (.ok current, db₁))
    (happly : session.applyPatches (Migration.due current.version patches) db₁ = (none, db₂))
    (hcommit : db₂.commit = (.ok (), after)) : failureThrough session patches db = none := by
  unfold failureThrough
  rw [hbegin]
  dsimp only
  rw [hfind]
  dsimp only
  rw [happly]
  dsimp only
  rw [hcommit]

/-- How an attempt ends after its patches. -/
def conclude (run : Migration.Run Database ω) : Applied ω :=
  match run.result with
  | .error e => ⟨.error e, run.session.abandon, run.observer⟩
  | .ok row =>
    match run.session.commit with
    | (.error e, db) => ⟨.error e, db, run.observer⟩
    | (.ok (), db) => ⟨.ok row, db, run.observer⟩

/-- The end depends on nothing but what is left of the run. -/
theorem conclude_congr {run other : Migration.Run Database ω} (hresult : run.result = other.result)
    (hsession : run.session = other.session) (hobserver : run.observer = other.observer) :
    conclude run = conclude other := by
  unfold conclude
  rw [hresult, hsession, hobserver]

theorem conclude_observer (run : Migration.Run Database ω) :
    (conclude run).observer = run.observer := by
  unfold conclude
  cases run.result with
  | error e => rfl
  | ok row => rcases run.session.commit with ⟨e | u, db⟩ <;> rfl

theorem applyThrough_eq (session : Session Database) (patches : List Patch)
    (observer : Observer ω) (o : ω) (db : Database) :
    applyThrough session observer patches o db =
      match db.beginTransaction with
      | (.error e, db) => ⟨.error e, db, o⟩
      | (.ok (), db) =>
        match session.findRow patches db with
        | (.error e, db) => ⟨.error e, db.abandon, o⟩
        | (.ok current, db) => conclude (applyFrom session observer current db o patches) := by
  unfold applyThrough
  rcases db.beginTransaction with ⟨e | u, start⟩
  · rfl
  have hall := Migration.applyAll_eq session observer patches o start
  dsimp only
  generalize applyAll session observer patches start o = run at hall ⊢
  generalize session.findRow patches start = found at hall ⊢
  obtain ⟨e | current, db₁⟩ := found
  · obtain ⟨hresult, hsession, hobserver⟩ := hall
    simp only [hresult, hsession, hobserver]
  · obtain ⟨hresult, hsession, hobserver⟩ := hall
    exact conclude_congr hresult hsession hobserver

/-- An attempt ends in an error just if something fails. -/
theorem applyThrough_result (session : Session Database) (patches : List Patch)
    (observer : Observer ω) (o : ω) (db : Database) :
    match failureThrough session patches db with
    | some (_, e) => (applyThrough session observer patches o db).result = .error e
    | none => ∃ row, (applyThrough session observer patches o db).result = .ok row := by
  rw [applyThrough_eq]
  unfold failureThrough
  rcases db.beginTransaction with ⟨e | u, start⟩
  · rfl
  dsimp only
  rcases session.findRow patches start with ⟨e | current, db₁⟩
  · rfl
  obtain ⟨hsession, hend⟩ := Migration.applyFrom_result session observer patches o current db₁
  dsimp only
  generalize session.applyPatches (Migration.due current.version patches) db₁ = tried at hsession hend ⊢
  obtain ⟨_ | ⟨p, e⟩, db₂⟩ := tried
  · obtain ⟨row, hrow⟩ := hend
    simp only at hsession
    simp only [conclude, hrow, hsession]
    rcases db₂.commit with ⟨e | u, after⟩
    · rfl
    · exact ⟨row, rfl⟩
  · simp only at hend
    simp only [conclude, hend]

/-- What an observer is told is what it is told in the loop, if the loop is reached; and a patch
fails in the attempt just if it fails there. -/
theorem applyThrough_observer (session : Session Database) (patches : List Patch)
    (observer : Observer ω) (o : ω) (db : Database) :
    ((applyThrough session observer patches o db).observer = o ∧
        ∃ e, failureThrough session patches db = some (.opening, e)) ∨
      ∃ start current db₁, db.beginTransaction = (.ok (), start) ∧
        session.findRow patches start = (.ok current, db₁) ∧
        (applyThrough session observer patches o db).observer =
          (applyFrom session observer current db₁ o patches).observer ∧
        ∀ p e, failureThrough session patches db = some (.patch p, e) ↔
          (session.applyPatches (Migration.due current.version patches) db₁).1 = some (p, e) := by
  rw [applyThrough_eq]
  unfold failureThrough
  rcases db.beginTransaction with ⟨e | u, start⟩
  · exact .inl ⟨rfl, e, rfl⟩
  dsimp only
  rcases hrow : session.findRow patches start with ⟨e | current, db₁⟩
  · exact .inl ⟨rfl, e, rfl⟩
  refine .inr ⟨start, current, db₁, rfl, hrow, conclude_observer _, fun p e => ?_⟩
  dsimp only
  rcases session.applyPatches (Migration.due current.version patches) db₁ with ⟨_ | ⟨q, e'⟩, db₂⟩
  · dsimp only
    rcases db₂.commit with ⟨e' | u, after⟩ <;> simp
  · simp

/-- An error says by itself whether it was the commit that failed. -/
theorem failureThrough_commit_iff (hsession : session.FailsWith (·.kind ≠ .transaction))
    {stage : Stage} {e : Error} (h : failureThrough session patches db = some (stage, e)) :
    (∃ cause, e = .transaction .commit cause) ↔ stage = .commit := by
  unfold failureThrough at h
  rcases hbegin : db.beginTransaction with ⟨e' | u, start⟩
  · rw [hbegin] at h
    cases h
    obtain ⟨cause, rfl⟩ := Database.exists_of_beginTransaction_eq_error hbegin
    simp
  rw [hbegin] at h
  dsimp only at h
  rcases hrow : session.findRow patches start with ⟨e' | current, db₁⟩
  · rw [hrow] at h
    cases h
    have hkind := hsession.findRow hrow
    constructor
    · rintro ⟨cause, rfl⟩
      exact absurd rfl hkind
    · nofun
  rw [hrow] at h
  dsimp only at h
  rcases htried : session.applyPatches (Migration.due current.version patches) db₁ with
    ⟨_ | ⟨p, e'⟩, db₂⟩
  · rw [htried] at h
    dsimp only at h
    rcases hcommit : db₂.commit with ⟨e' | u, after⟩
    · rw [hcommit] at h
      cases h
      simpa using (Database.commit_eq_error hcommit).1
    · rw [hcommit] at h
      cases h
  · rw [htried] at h
    cases h
    have hkind := hsession.applyPatches htried
    constructor
    · rintro ⟨cause, rfl⟩
      exact absurd rfl hkind
    · nofun

/-- Whatever failed: once the client has gone away, the contents are those before the attempt. -/
theorem contents_disconnect_of_eq_error (hsession : ∀ start : Database, session.Preserves start.Sends)
    (hopen : db.snapshot = none) {e : Error}
    (h : (applyThrough session observer patches o db).result = .error e) :
    (applyThrough session observer patches o db).database.disconnect.contents = db.contents := by
  unfold applyThrough at h ⊢
  rcases hbegin : db.beginTransaction with ⟨e' | u, start⟩
  · exact Database.contents_disconnect_of_beginTransaction hopen hbegin
  have hopens := Database.opens_of_beginTransaction hbegin
  have hsends : start.Sends (applyAll session observer patches start o).session :=
    Migration.applyAll_preserves (hsession start) patches start o (.refl start)
  -- the session has sent no command, so the contents that the transaction kept are still there
  have hkept : (applyAll session observer patches start o).session.snapshot = some db.contents :=
    hsends.snapshot.trans hopens.snapshot
  rw [hbegin] at h
  dsimp only at h ⊢
  generalize applyAll session observer patches start o = run at h hkept ⊢
  cases hrun : run.result with
  | error e' =>
    dsimp only
    rw [Database.contents_disconnect_abandon, hkept]
    rfl
  | ok row =>
    rw [hrun] at h
    dsimp only at h ⊢
    rcases hcommit : run.session.commit with ⟨e' | u, after⟩
    · obtain ⟨-, hcontents, hclosed⟩ := Database.commit_eq_error hcommit
      show (after.snapshot.getD after.contents) = db.contents
      rw [hclosed, hcontents, hkept]
      rfl
    · rw [hcommit] at h
      cases h

end

theorem eq_error_of_dropValue {α : Type} {r : Except Error α × Database} {e : Error}
    {after : Database} (h : dropValue r = (.error e, after)) : r = (.error e, after) := by
  obtain ⟨_ | _, _⟩ := r
  · cases h
    rfl
  · cases h

/-- The errors of a session on a database are not about its transaction. -/
theorem session_failsWith (m : Migrator) : m.session.FailsWith (·.kind ≠ .transaction) where
  ensureTable h := Query.kind_of_execute (eq_error_of_dropValue h)
  readVersion h := by
    rw [session_readVersion] at h
    exact Query.kind_of_fetchOptional h
  seedVersion h := by
    rw [session_seedVersion] at h
    exact Query.kind_of_fetchOne h
  runPatch h := Operation.execute.kind_of_byName (eq_error_of_dropValue h)
  storeVersion h := Query.kind_of_execute (eq_error_of_dropValue h)

section

variable {ω : Type} {m : Migrator} {observer : Observer ω} {o : ω} {db : Database}

/-- Once the row is found, the loop over the patches can start from it. -/
theorem reached_of_findRow {start db₁ : Database} {current : VersionRow}
    (hspares : start.SparesVersions)
    (h : m.session.findRow m.patches start = (.ok current, db₁)) :
    m.Reached start [] current db₁ ∧ current.version = m.startVersion start.contents := by
  obtain ⟨db', hensure, hread | ⟨db'', hread, hseed⟩⟩ := Session.findRow_eq_ok h
  · exact m.reached_of_read hspares hensure hread
  · exact m.reached_of_seed hspares hensure hread hseed

/-- The row that is found has the version that the contents say to start from. -/
theorem version_of_findRow {start db₁ : Database} {current : VersionRow}
    (hspares : start.SparesVersions)
    (h : m.session.findRow m.patches start = (.ok current, db₁)) :
    current.version = m.startVersion start.contents :=
  (reached_of_findRow hspares h).2

/-- An attempt succeeds just if nothing fails. -/
theorem exists_apply_eq_ok_iff :
    (∃ row, (m.apply observer o db).result = .ok row) ↔ m.failure? db = none := by
  have hresult := applyThrough_result m.session m.patches observer o db
  unfold failure?
  rcases hfails : failureThrough m.session m.patches db with _ | ⟨stage, e⟩
  · rw [hfails] at hresult
    exact iff_of_true hresult rfl
  · rw [hfails] at hresult
    refine iff_of_false ?_ nofun
    rintro ⟨row, hrow⟩
    cases hresult.symm.trans hrow

/-- An attempt ends in an error just if it is the error of what fails first. -/
theorem apply_eq_error_iff {e : Error} :
    (m.apply observer o db).result = .error e ↔ ∃ stage, m.failure? db = some (stage, e) := by
  have hresult := applyThrough_result m.session m.patches observer o db
  unfold failure?
  rcases hfails : failureThrough m.session m.patches db with _ | ⟨stage, e'⟩
  · rw [hfails] at hresult
    obtain ⟨row, hrow⟩ := hresult
    refine iff_of_false (fun he => ?_) nofun
    cases he.symm.trans hrow
  · rw [hfails] at hresult
    have he' : (m.apply observer o db).result = .error e' := hresult
    simp [he']

/-- The error says by itself whether it was the commit that failed. -/
theorem commit_iff_of_failure? {stage : Stage} {e : Error} (h : m.failure? db = some (stage, e)) :
    (∃ cause, e = .transaction .commit cause) ↔ stage = .commit :=
  failureThrough_commit_iff m.session_failsWith h

end

end Migrator

end QueryBook
