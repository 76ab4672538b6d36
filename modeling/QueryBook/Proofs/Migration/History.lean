import QueryBook.Proofs.Migration.AllOrNothing
import QueryBook.Proofs.Patch.Discover

/-!
# Exactly once, never backwards

Attempts to apply patches follow each other on one database, each with its own catalog and its own
failures. What they commit, taken together, is in strictly ascending order of the versions, so
nothing is committed twice (`history_exactly_once`). The invariant is `Grown`: it says what one
attempt may do to a database, and it is kept when attempts follow each other.
-/

namespace QueryBook

/-! ## What one attempt returns -/

namespace Migrator

open Migration (Observer Notice)

variable {m : Migrator} {db : Database} {row : VersionRow}

/-- The version that is stored in the end is not older than the one before, nor than any patch that
was due. -/
theorem apply_eq_ok_le {ω : Type} {observer : Observer ω} {o : ω} (hspares : db.SparesVersions)
    (h : (m.apply observer o db).result = .ok row) :
    m.startVersion db.contents ≤ row.version ∧
      ∀ p ∈ m.due db.contents, p.version ≤ row.version := by
  obtain ⟨start, db', current, -, -, hversion, hok, -⟩ := apply_eq_ok_loop hspares h
  have hle := Migration.applyFrom_le hok
  rwa [hversion] at hle

/-- The patches that were due are just those that are reported as finished. -/
theorem apply_eq_ok_finished (hspares : db.SparesVersions)
    (h : (m.apply (Observer.recorder fun _ => true) [] db).result = .ok row) :
    (m.apply (Observer.recorder fun _ => true) [] db).observer.filterMap Notice.finished? =
      m.due db.contents := by
  obtain ⟨start, db', current, -, -, hversion, hok, -, hobserver⟩ := apply_eq_ok_loop hspares h
  rw [hobserver, Migration.applyFrom_finished hok, hversion]
  rfl

end Migrator

/-- A stored row may be followed by one with the same time and a version that is not older; where
there is none, any may follow. -/
def StoredVersion.Advances (before after : Option StoredVersion) : Prop :=
  ∀ s, before = some s → ∃ t, after = some t ∧ s.version ≤ t.version ∧ t.createdAt = s.createdAt

namespace StoredVersion.Advances

theorem refl (stored : Option StoredVersion) : Advances stored stored :=
  fun s hs => ⟨s, hs, Int64.le_refl _, rfl⟩

theorem trans {a b c : Option StoredVersion} (hab : Advances a b) (hbc : Advances b c) :
    Advances a c := by
  -- through the row in the middle
  intro s hs
  obtain ⟨t, ht, hle, htime⟩ := hab s hs
  obtain ⟨u, hu, hle', htime'⟩ := hbc t ht
  exact ⟨u, hu, Int64.le_trans hle hle', htime'.trans htime⟩

end StoredVersion.Advances

namespace Migration

/-! ## Attempts -/

/-- An attempt to apply the patches of a catalog, with the time and the answers that the database
has for it. -/
structure Attempt where
  catalog : Catalog
  patchPrefix : String
  now : Int64
  rules : List Rule

/-- A patch together with the catalog that it was found in. -/
structure CommittedPatch where
  catalog : Catalog
  patch : Patch

def CommittedPatch.version (c : CommittedPatch) : Int64 :=
  c.patch.version

def CommittedPatch.effect (c : CommittedPatch) : Effect :=
  c.catalog.effectOf c.patch

namespace Attempt

/-- The database as the attempt finds it. -/
def opens (a : Attempt) (db : Database) : Database :=
  { db with now := a.now, rules := a.rules }

def outcome (a : Attempt) (db : Database) : Migrator.Applied (List Notice) :=
  a.catalog.applyPatches a.patchPrefix (Observer.recorder fun _ => true) [] (a.opens db)

/-- The patches that have been committed: those reported as finished, if the attempt succeeds. -/
def committed (a : Attempt) (db : Database) : List CommittedPatch :=
  match (a.outcome db).result with
  | .ok _ => ((a.outcome db).observer.filterMap Notice.finished?).map (⟨a.catalog, ·⟩)
  | .error _ => []

/-- What is taken for granted: a transaction can be taken back, the queries on the version table do
what their text says or fail, and no query that could be a patch is one of them. -/
structure Sound (a : Attempt) : Prop where
  canRollBack : ∀ r ∈ a.rules, r.AllowsRollback
  sparesVersions : ∀ r ∈ a.rules, r.SparesVersions
  patches : ∀ q ∈ a.catalog.toList, Patch.rest? a.patchPrefix q.name ≠ none →
    VersionQuery.ofText? q.body = none

/-- The patches that are found in the catalog of a sound attempt leave the version table alone. -/
theorem Sound.migrator {a : Attempt} (h : a.Sound) {m : Migrator}
    (hm : Migrator.ofCatalog a.catalog a.patchPrefix = .ok m) : m.SparesVersions := by
  obtain ⟨hcatalog, hpatches⟩ := Migrator.ofCatalog_eq_ok hm
  intro p hp
  have hprefix := Patch.rest?_of_mem_discover hpatches p hp
  rw [hcatalog]
  cases hq : a.catalog.get? p.name with
  | none =>
    -- a name that has no query stands for the empty statement
    have hempty : a.catalog.statementOf p = "" := by simp [Catalog.statementOf, hq]
    rw [hempty]
    decide +kernel
  | some q =>
    have hbody : a.catalog.statementOf p = q.body := by simp [Catalog.statementOf, hq]
    rw [hbody]
    rw [← Catalog.name_of_get? hq] at hprefix
    exact h.patches q (Catalog.mem_toList_of_get? hq) hprefix

end Attempt

/-! ## The invariant -/

/-- What may happen to a database while the patches `done` are committed. -/
structure Grown (before after : Database) (done : List CommittedPatch) : Prop where
  closed : after.snapshot = none
  advances : StoredVersion.Advances before.contents.stored after.contents.stored
  effects : after.contents.effects = before.contents.effects ++ done.map CommittedPatch.effect
  ascending : done.Pairwise fun a b => a.version < b.version
  newer : ∀ s, before.contents.stored = some s → ∀ c ∈ done, s.version < c.version
  stored : ∀ c ∈ done, ∃ t, after.contents.stored = some t ∧ c.version ≤ t.version

/-- Committing nothing leaves the contents as they are. -/
theorem Grown.of_unchanged {before after : Database} (hclosed : after.snapshot = none)
    (hcontents : after.contents = before.contents) : Grown before after [] where
  closed := hclosed
  advances := by
    rw [hcontents]
    exact .refl _
  effects := by simp [hcontents]
  ascending := .nil
  newer _ _ _ hc := nomatch hc
  stored _ hc := nomatch hc

theorem Grown.trans {a b c : Database} {first second : List CommittedPatch} (hab : Grown a b first)
    (hbc : Grown b c second) : Grown a c (first ++ second) where
  closed := hbc.closed
  advances := hab.advances.trans hbc.advances
  effects := by simp [hbc.effects, hab.effects]
  ascending := by
    -- what the first attempt commits is at most the version that it stores
    refine List.pairwise_append.2 ⟨hab.ascending, hbc.ascending, fun x hx y hy => ?_⟩
    obtain ⟨t, ht, hle⟩ := hab.stored x hx
    exact Int64.lt_of_le_of_lt hle (hbc.newer t ht y hy)
  newer s hs x hx := by
    rcases List.mem_append.1 hx with hx | hx
    · exact hab.newer s hs x hx
    · obtain ⟨t, ht, hle, -⟩ := hab.advances s hs
      exact Int64.lt_of_le_of_lt hle (hbc.newer t ht x hx)
  stored x hx := by
    rcases List.mem_append.1 hx with hx | hx
    · obtain ⟨t, ht, hle⟩ := hab.stored x hx
      obtain ⟨u, hu, hle', -⟩ := hbc.advances t ht
      exact ⟨u, hu, Int64.le_trans hle hle'⟩
    · exact hbc.stored x hx

/-! ## Attempts one after another -/

/-- One attempt keeps the invariant, however it ends. -/
theorem Attempt.grown {a : Attempt} (ha : a.Sound) {db : Database} (hopen : db.snapshot = none) :
    Grown db (a.outcome db).database (a.committed db) := by
  have hclosed : (a.opens db).snapshot = none := hopen
  have hback : (a.opens db).CanRollBack := ha.canRollBack
  have hspares : (a.opens db).SparesVersions := ha.sparesVersions
  unfold Attempt.committed Attempt.outcome Catalog.applyPatches
  cases hm : Migrator.ofCatalog a.catalog a.patchPrefix with
  | error e => exact .of_unchanged hopen rfl
  | ok m =>
    dsimp only
    cases hresult : (m.apply (Observer.recorder fun _ => true) [] (a.opens db)).result with
    | error e =>
      obtain ⟨hcontents, hafter, -⟩ :=
        Migrator.applyThrough_eq_error m.session_preserves_sends hclosed hback hresult
      exact .of_unchanged hafter hcontents
    | ok row =>
      dsimp only
      have hdone := Migrator.apply_eq_ok hspares (ha.migrator hm) hresult
      obtain ⟨hstart, hdue⟩ := Migrator.apply_eq_ok_le hspares hresult
      rw [Migrator.apply_eq_ok_finished hspares hresult]
      have hcatalog : m.catalog = a.catalog := (Migrator.ofCatalog_eq_ok hm).1
      -- the attempt finds the contents that `db` has
      have hfinds : (a.opens db).contents = db.contents := rfl
      constructor
      · exact hdone.closed
      · intro s hs
        refine ⟨_, by rw [hdone.contents], ?_, ?_⟩
        · simpa [Migrator.startVersion, hfinds, hs] using hstart
        · simp [Migrator.rowTime, hfinds, hs]
      · rw [hdone.contents, List.map_map, hcatalog]
        rfl
      · exact List.pairwise_map.2 (pairwise_due _ _)
      · intro s hs c hc
        obtain ⟨p, hp, rfl⟩ := List.mem_map.1 hc
        have hlt := lt_of_mem_due hp
        simpa [CommittedPatch.version, Migrator.startVersion, hfinds, hs] using hlt
      · intro c hc
        obtain ⟨p, hp, rfl⟩ := List.mem_map.1 hc
        refine ⟨⟨row.version, Migrator.rowTime (a.opens db)⟩, ?_, hdue p hp⟩
        rw [hdone.contents]

/-- The database after all attempts. -/
def finalDatabase (db : Database) : List Attempt → Database
  | [] => db
  | a :: rest => finalDatabase (a.outcome db).database rest

/-- The database before the first attempt and after each of them. -/
def databases (db : Database) : List Attempt → List Database
  | [] => [db]
  | a :: rest => db :: databases (a.outcome db).database rest

/-- What all attempts commit, in the order in which it happens. -/
def allCommitted (db : Database) : List Attempt → List CommittedPatch
  | [] => []
  | a :: rest => a.committed db ++ allCommitted (a.outcome db).database rest

/-- The invariant holds over any number of attempts. -/
theorem grown_finalDatabase {attempts : List Attempt} (hsound : ∀ a ∈ attempts, a.Sound)
    {db : Database} (hopen : db.snapshot = none) :
    Grown db (finalDatabase db attempts) (allCommitted db attempts) := by
  induction attempts generalizing db with
  | nil => exact .of_unchanged hopen rfl
  | cons a rest ih =>
    have hfirst := Attempt.grown (hsound a List.mem_cons_self) hopen
    exact hfirst.trans (ih (fun b hb => hsound b (List.mem_cons_of_mem _ hb)) hfirst.closed)

theorem advances_of_mem_databases {attempts : List Attempt} (hsound : ∀ a ∈ attempts, a.Sound)
    {db : Database} (hopen : db.snapshot = none) :
    ∀ d ∈ databases db attempts, StoredVersion.Advances db.contents.stored d.contents.stored := by
  induction attempts generalizing db with
  | nil =>
    intro d hd
    cases List.mem_singleton.1 hd
    exact .refl _
  | cons a rest ih =>
    intro d hd
    rcases List.mem_cons.1 hd with rfl | hd
    · exact .refl _
    · have hfirst := Attempt.grown (hsound a List.mem_cons_self) hopen
      exact hfirst.advances.trans
        (ih (fun b hb => hsound b (List.mem_cons_of_mem _ hb)) hfirst.closed d hd)

/-- At any two times the earlier stored row advances to the later one. -/
theorem pairwise_databases {attempts : List Attempt} (hsound : ∀ a ∈ attempts, a.Sound)
    {db : Database} (hopen : db.snapshot = none) :
    (databases db attempts).Pairwise fun d e =>
      StoredVersion.Advances d.contents.stored e.contents.stored := by
  induction attempts generalizing db with
  | nil => exact List.pairwise_singleton _ _
  | cons a rest ih =>
    have hfirst := Attempt.grown (hsound a List.mem_cons_self) hopen
    have hrest : ∀ b ∈ rest, b.Sound := fun b hb => hsound b (List.mem_cons_of_mem _ hb)
    refine List.pairwise_cons.2 ⟨fun d hd => ?_, ih hrest hfirst.closed⟩
    exact hfirst.advances.trans (advances_of_mem_databases hrest hfirst.closed d hd)

/-- Whatever the attempts are and however they fail, the versions that are committed are strictly
ascending over all of them, the stored version never goes back, its time never changes, and the
database holds the effects of just what was committed. -/
theorem history_exactly_once (db : Database) (attempts : List Attempt) (hopen : db.snapshot = none)
    (hsound : ∀ a ∈ attempts, a.Sound) :
    ((allCommitted db attempts).map CommittedPatch.version).Pairwise (· < ·) ∧
      (databases db attempts).Pairwise (fun d e =>
        StoredVersion.Advances d.contents.stored e.contents.stored) ∧
      (finalDatabase db attempts).contents.effects =
        db.contents.effects ++ (allCommitted db attempts).map CommittedPatch.effect := by
  have hgrown := grown_finalDatabase hsound hopen
  exact ⟨List.pairwise_map.2 hgrown.ascending, pairwise_databases hsound hopen, hgrown.effects⟩

/-- An attempt in which the version of the second patch cannot be stored, and one with a patch that
comes too late. -/
def twoAttempts : List Attempt :=
  let users : Query := ⟨"patch-2-users", "CREATE TABLE users (id BIGINT)", []⟩
  let mail : Query := ⟨"patch-3-mail", "ALTER TABLE users ADD mail TEXT", []⟩
  let late : Query := ⟨"patch-1-late", "CREATE TABLE late (id BIGINT)", []⟩
  let update := VersionQuery.update.query.body
  [{ catalog := (∅ : Catalog).insertAll [users, mail]
     patchPrefix := "patch-"
     now := 5
     rules := [
       { sql := update, uses := some 1, passes := true },
       { sql := update, params := [.int8]
         failure := some { sqlState := "53100", message := "disk full" } }] },
    { catalog := (∅ : Catalog).insertAll [users, late]
      patchPrefix := "patch-"
      now := 6
      rules := [] }]

theorem history_twoAttempts :
    (∀ a ∈ twoAttempts, a.Sound) ∧
      ((allCommitted (.ofContents ⟨true, some ⟨1, 0⟩, []⟩ 0 []) twoAttempts).map
        CommittedPatch.version).Pairwise (· < ·) := by
  have hsound : ∀ a ∈ twoAttempts, a.Sound := by
    intro a ha
    simp only [twoAttempts, List.mem_cons, List.not_mem_nil, or_false] at ha
    rcases ha with rfl | rfl
    · exact ⟨by decide +kernel, by decide +kernel, by decide +kernel⟩
    · exact ⟨by decide +kernel, by decide +kernel, by decide +kernel⟩
  exact ⟨hsound, (history_exactly_once _ twoAttempts rfl hsound).1⟩

end Migration

end QueryBook
