import QueryBook.Proofs.Migration.Repetition
import QueryBook.Proofs.Migration.Unhindered
import QueryBook.Proofs.Patch.Candidates

/-!
# Fresh databases

A database that has no version yet starts at the latest one: no patch is run, and what it then stores
is the greatest version of the patches (`StartsAtLatest`). From then on just the patches that are
newer run, whatever catalog they come from (`Upgrades`, `apply_fresh`).
-/

namespace QueryBook

namespace Patch

/-- The patches that are newer than a version. -/
def newerThan (version : Int64) (patches : List Patch) : List Patch :=
  patches.filter (version < ·.version)

/-- The patches that are not. -/
def upTo (version : Int64) (patches : List Patch) : List Patch :=
  patches.filter (·.version ≤ version)

section

variable {version : Int64} {p : Patch} {rest patches : List Patch}

theorem newerThan_cons_of_le (h : p.version ≤ version) (rest : List Patch) :
    newerThan version (p :: rest) = newerThan version rest :=
  List.filter_cons_of_neg (by simpa using h)

theorem upTo_cons_of_le (h : p.version ≤ version) (rest : List Patch) :
    upTo version (p :: rest) = p :: upTo version rest :=
  List.filter_cons_of_pos (by simpa using h)

theorem newerThan_of_lt (h : ∀ p ∈ patches, version < p.version) :
    newerThan version patches = patches :=
  List.filter_eq_self.2 fun p hp => by simpa using h p hp

theorem upTo_of_lt (h : ∀ p ∈ patches, version < p.version) : upTo version patches = [] :=
  List.filter_eq_nil_iff.2 fun p hp => by simpa using h p hp

end

end Patch

namespace Migration

open Patch (newerThan upTo)

/-! ## The course of ascending patches -/

variable {σ ω : Type} {patches : List Patch}

theorem exists_mem_version_eq_headVersion (h : patches ≠ []) :
    ∃ p ∈ patches, p.version = headVersion patches := by
  refine ⟨patches.getLast h, List.getLast_mem h, ?_⟩
  unfold headVersion
  rw [List.getLast?_eq_getLast_of_ne_nil h]

/-- In ascending order the patches up to the version are skipped, and then all others are applied. -/
theorem course_of_pairwise (h : patches.Pairwise fun a b => a.version < b.version) (version : Int64) :
    course version patches =
      (upTo version patches).map (fun p => .notice (.skipped p)) ++
        (newerThan version patches).flatMap applied := by
  induction patches generalizing version with
  | nil => rfl
  | cons p rest ih =>
    obtain ⟨hp, hrest⟩ := List.pairwise_cons.1 h
    by_cases hle : p.version ≤ version
    · rw [course_skip hle, ih hrest, Patch.upTo_cons_of_le hle, Patch.newerThan_cons_of_le hle]
      rfl
    · -- everything from `p` on is newer than the version, and what follows is newer than `p`
      have hlt : version < p.version := Int64.not_le.1 hle
      have hall : ∀ q ∈ p :: rest, version < q.version :=
        List.forall_mem_cons.2 ⟨hlt, fun q hq => Int64.lt_trans hlt (hp q hq)⟩
      rw [course_apply hlt, ih hrest, Patch.upTo_of_lt hall, Patch.newerThan_of_lt hall,
        Patch.upTo_of_lt hp, Patch.newerThan_of_lt hp]
      rfl

/-- What an observer is told of patches in ascending order, if none fails. -/
def noticesFrom (version : Int64) (patches : List Patch) : List Notice :=
  (upTo version patches).map .skipped ++ notices (newerThan version patches)

theorem filterMap_notice?_course (h : patches.Pairwise fun a b => a.version < b.version)
    (version : Int64) :
    (course version patches).filterMap Entry.notice? = noticesFrom version patches := by
  have happlied : ∀ newer : List Patch,
      (newer.flatMap applied).filterMap Entry.notice? = notices newer := by
    intro newer
    unfold notices
    rw [List.filterMap_flatMap]
    rfl
  have hskipped : ∀ older : List Patch, (older.map fun p => Entry.notice (.skipped p)).filterMap
      Entry.notice? = older.map .skipped := by
    intro older
    rw [List.filterMap_map, ← List.filterMap_eq_map]
    rfl
  rw [course_of_pairwise h, List.filterMap_append, hskipped, happlied]
  rfl

/-- The observer of the loop is told this up to the failure, if there is one. -/
theorem applyFrom_noticesFrom (session : Session σ) (observer : Observer ω)
    (h : patches.Pairwise fun a b => a.version < b.version) (current : VersionRow) (s : σ) (o : ω) :
    (∃ told, told <+: noticesFrom current.version patches ∧
        (applyFrom session observer current s o patches).observer = observer.tell o told) ∧
      ∀ row, (applyFrom session observer current s o patches).result = .ok row →
        (applyFrom session observer current s o patches).observer =
          observer.tell o (noticesFrom current.version patches) := by
  have htells := (applyFrom_tells session observer patches current s o).observer
  obtain ⟨hbegins, hends⟩ := applyFrom_course session observer patches current s o
  have hcourse : ((course current.version patches).map Entry.event).filterMap Event.notice? =
      noticesFrom current.version patches := by
    rw [List.filterMap_map, Entry.notice?_comp_event, filterMap_notice?_course h]
  refine ⟨⟨_, ?_, htells⟩, fun row hok => ?_⟩
  · rw [← hcourse]
    exact hbegins.filterMap _
  · rw [htells, (hends row hok).1, hcourse]

end Migration

namespace Migrator

open Migration (Session Observer applyFrom noticesFrom)
open Patch (newerThan)

variable {ω : Type}

/-! ## The first attempt -/

/-- What an attempt leaves behind that has put a database without a version at the latest one. -/
structure StartsAtLatest (m : Migrator) (observer : Observer ω) (o : ω) (before : Database)
    (applied : Applied ω) : Prop where
  result : ∃ createdAt, Instant.ofMicros? before.now.toInt = some createdAt ∧
    applied.result = .ok ⟨m.latestVersion, createdAt⟩
  /-- The observer is told of each patch that it is skipped. -/
  skipped : applied.observer = observer.tell o (m.patches.map .skipped)
  contents : applied.database.contents =
    { before.contents with hasTable := true, stored := some ⟨m.latestVersion, before.now⟩ }
  /-- No statement of a patch has been sent. -/
  log : applied.database.log = before.log ++
    [.command .start, VersionQuery.create.entry [], VersionQuery.select.entry [],
      VersionQuery.insert.entry [VersionQuery.cell m.latestVersion], .command .commit]

variable {m : Migrator} {db : Database}

theorem startsAtLatest_apply (hsorted : m.patches.Pairwise fun a b => a.version < b.version)
    (hstored : db.contents.stored = none) (hdb : db.Unhindered) (observer : Observer ω) (o : ω) :
    m.StartsAtLatest observer o db (m.apply observer o db) := by
  have hspares := hdb.answersVersions.sparesVersions
  have hnone : m.due db.contents = [] := due_of_stored_eq_none hsorted hstored
  have hadmits : ∀ p ∈ m.due db.contents, m.catalog.Admits p db := by simp [hnone]
  obtain ⟨row, hrow⟩ := exists_apply_eq_ok_of_unhindered hdb hadmits observer o
  obtain ⟨start, db', current, hopens, hreached, hversion, hok, hcommit, hobserver⟩ :=
    apply_eq_ok_loop hspares hrow
  have hlatest : current.version = m.latestVersion := by
    rw [hversion]
    unfold startVersion
    rw [hstored]
    rfl
  -- the row stands at the latest version, so that the loop passes over all patches
  have hle : ∀ p ∈ m.patches, p.version ≤ current.version := by
    rw [hlatest]
    exact Migration.le_headVersion hsorted
  rw [Migration.applyFrom_of_le m.session observer hle db' o] at hok hcommit hobserver
  obtain rfl : current = row := Except.ok.inj hok
  dsimp only at hcommit hobserver
  obtain ⟨hcontents, -, hlog⟩ := Database.commit_eq_ok hcommit
  have htime : rowTime start = db.now := by
    unfold rowTime
    rw [hopens.contents, hstored]
    exact hopens.now
  have hopening : m.opening start.contents =
      [VersionQuery.create.entry [], VersionQuery.select.entry [],
        VersionQuery.insert.entry [VersionQuery.cell m.latestVersion]] := by
    rw [hopens.contents]
    unfold opening
    rw [hstored]
    rfl
  constructor
  · refine ⟨current.createdAt, ?_, ?_⟩
    · rw [← htime]
      exact hreached.reads.createdAt
    · rw [hrow, ← hlatest]
  · exact hobserver
  · rw [hcontents, hreached.contents, htime, hlatest, hopens.contents, List.map_nil, List.append_nil]
  · rw [hlog, hreached.log, hopens.log, hopening]
    simp

/-! ## Later attempts -/

/-- What an attempt does by which a database is brought from a version to the patches that are newer. -/
structure Upgrades (m : Migrator) (version : Int64) (observer : Observer ω) (o : ω)
    (before : Database) (applied : Applied ω) : Prop where
  ascending : (newerThan version m.patches).Pairwise fun a b => a.version < b.version
  /-- Only of the newer patches is the observer told that they run, one after another. -/
  told : ∃ told, told <+: noticesFrom version m.patches ∧ applied.observer = observer.tell o told
  /-- If the attempt succeeds, all of them have run. -/
  complete : ∀ row, applied.result = .ok row →
    applied.observer = observer.tell o (noticesFrom version m.patches)
  effects : ∀ row, applied.result = .ok row → m.SparesVersions →
    applied.database.contents.effects =
      before.contents.effects ++ (newerThan version m.patches).map m.catalog.effectOf
  succeeds : before.Unhindered → (∀ p ∈ newerThan version m.patches, m.catalog.Admits p before) →
    ∃ row, applied.result = .ok row

theorem upgrades_apply (hsorted : m.patches.Pairwise fun a b => a.version < b.version)
    {s : StoredVersion} (hstored : db.contents.stored = some s) (hspares : db.SparesVersions)
    (observer : Observer ω) (o : ω) :
    m.Upgrades s.version observer o db (m.apply observer o db) := by
  have hstart : m.startVersion db.contents = s.version := by
    unfold startVersion
    rw [hstored]
  have hdue : m.due db.contents = newerThan s.version m.patches := by
    unfold due
    rw [hstart]
    exact Migration.due_eq_filter hsorted s.version
  constructor
  · exact hsorted.filter _
  · rcases applyThrough_observer m.session m.patches observer o db with
      ⟨hobserver, -⟩ | ⟨start, current, db₁, hbegin, hfind, hobserver, -⟩
    · exact ⟨[], List.nil_prefix, hobserver⟩
    · have hopens := Database.opens_of_beginTransaction hbegin
      have hversion := version_of_findRow (hopens.sparesVersions hspares) hfind
      rw [hopens.contents, hstart] at hversion
      obtain ⟨⟨told, hbegins, htold⟩, -⟩ :=
        Migration.applyFrom_noticesFrom m.session observer hsorted current db₁ o
      rw [hversion] at hbegins
      exact ⟨told, hbegins, hobserver.trans htold⟩
  · intro row hrow
    obtain ⟨start, db', current, -, -, hversion, hok, -, hobserver⟩ := apply_eq_ok_loop hspares hrow
    obtain ⟨-, hends⟩ := Migration.applyFrom_noticesFrom m.session observer hsorted current db' o
    rw [hobserver, hends row hok, hversion, hstart]
  · intro row hrow hm
    have hdone := apply_eq_ok hspares hm hrow
    rw [hdone.contents, hdue]
  · intro hfree hadmits
    rw [← hdue] at hadmits
    exact exists_apply_eq_ok_of_unhindered hfree hadmits observer o

/-! ## One after the other -/

/-- A fresh database starts at the latest version, which is the greatest of the patches that are found
in the catalog: none of them is run, each is skipped in ascending order, and the version is stored and
returned. A later attempt, with the patches that are found in any catalog, runs just those that are
newer than this version, in ascending order. -/
theorem apply_fresh (c : Catalog) (patchPrefix : String) (m : Migrator)
    (hm : ofCatalog c patchPrefix = .ok m) (observer : Observer ω) (o : ω) (db : Database)
    (hstored : db.contents.stored = none) (hdb : db.Unhindered) :
    let first := m.apply observer o db
    m.StartsAtLatest observer o db first ∧
      Patch.Listing c patchPrefix m.patches ∧
      (∃ p ∈ m.patches, p.version = m.latestVersion) ∧
      (∀ p ∈ m.patches, p.version ≤ m.latestVersion) ∧
      ∀ (c' : Catalog) (patchPrefix' : String) (m' : Migrator) (ω' : Type) (observer' : Observer ω')
        (o' : ω') (later : Database), ofCatalog c' patchPrefix' = .ok m' →
        later.contents.stored = first.database.contents.stored → later.SparesVersions →
        Patch.Listing c' patchPrefix' m'.patches ∧
          m'.Upgrades m.latestVersion observer' o' later (m'.apply observer' o' later) := by
  intro first
  obtain ⟨hlisting, hne⟩ := Patch.listing_of_discover (ofCatalog_eq_ok hm).2
  have hfirst := startsAtLatest_apply hlisting.ascending hstored hdb observer o
  refine ⟨hfirst, hlisting, Migration.exists_mem_version_eq_headVersion hne,
    Migration.le_headVersion hlisting.ascending, ?_⟩
  intro c' patchPrefix' m' ω' observer' o' later hm' hrow hspares
  obtain ⟨hlisting', -⟩ := Patch.listing_of_discover (ofCatalog_eq_ok hm').2
  rw [hfirst.contents] at hrow
  exact ⟨hlisting', upgrades_apply hlisting'.ascending hrow hspares observer' o'⟩

/-- The patches above and two more. By its name the last of them comes before the second. -/
def laterPatches : Migrator where
  catalog := userPatches.catalog.insertAll
    [⟨"patch-10-index", "CREATE INDEX mails ON users (mail)", []⟩,
      ⟨"patch-007-name", "ALTER TABLE users ADD name TEXT", []⟩]
  patches := [⟨1, "patch-1-users"⟩, ⟨2, "patch-2-mail"⟩, ⟨7, "patch-007-name"⟩,
    ⟨10, "patch-10-index"⟩]

theorem ofCatalog_laterPatches : ofCatalog laterPatches.catalog "patch-" = .ok laterPatches := by
  have hcollect : Patch.collect "patch-" [] (laterPatches.catalog.toList.map (·.name)) =
      .ok [⟨7, "patch-007-name"⟩, ⟨1, "patch-1-users"⟩, ⟨10, "patch-10-index"⟩,
        ⟨2, "patch-2-mail"⟩] := by
    decide +kernel
  exact ofCatalog_of_collect hcollect (by simp) (by decide) (by decide)

/-- A database in which nothing has been done yet. -/
def freshDatabase : Database :=
  .ofContents ⟨false, none, []⟩ 7 []

/-- A database that has started at version 2. -/
def atVersionTwo : Database :=
  .ofContents ⟨true, some ⟨2, 7⟩, []⟩ 9 []

theorem apply_fresh_userPatches :
    freshDatabase.contents.stored = none ∧ freshDatabase.Unhindered ∧
      userPatches.StartsAtLatest (Observer.recorder fun _ => true) [] freshDatabase
        (userPatches.apply (Observer.recorder fun _ => true) [] freshDatabase) ∧
      (∃ row, (laterPatches.apply (Observer.recorder fun _ => true) [] atVersionTwo).result =
        .ok row) ∧
      (laterPatches.apply (Observer.recorder fun _ => true) [] atVersionTwo).observer =
        [.skipped ⟨1, "patch-1-users"⟩, .skipped ⟨2, "patch-2-mail"⟩,
          .started ⟨7, "patch-007-name"⟩, .finished ⟨7, "patch-007-name"⟩,
          .started ⟨10, "patch-10-index"⟩, .finished ⟨10, "patch-10-index"⟩] := by
  have hdated : Instant.ofMicros? (7 : Int64).toInt = some (Instant.ofMicros 7) := by decide +kernel
  have hfresh : freshDatabase.Unhindered := ⟨by decide, by decide, by decide, _, hdated⟩
  have hlater : atVersionTwo.Unhindered := ⟨by decide, by decide, by decide, _, hdated⟩
  have hadmits : ∀ p ∈ newerThan 2 laterPatches.patches,
      laterPatches.catalog.Admits p atVersionTwo := by
    have hnewer : newerThan 2 laterPatches.patches =
        [⟨7, "patch-007-name"⟩, ⟨10, "patch-10-index"⟩] := by decide
    rw [hnewer, List.forall_mem_cons, List.forall_mem_singleton]
    constructor
    · exact ⟨⟨"patch-007-name", "ALTER TABLE users ADD name TEXT", []⟩, by decide +kernel, rfl,
        by decide +kernel, by decide +kernel, by decide⟩
    · exact ⟨⟨"patch-10-index", "CREATE INDEX mails ON users (mail)", []⟩, by decide +kernel, rfl,
        by decide +kernel, by decide +kernel, by decide⟩
  obtain ⟨hfirst, -, -, -, hthen⟩ := apply_fresh _ _ _ ofCatalog_userPatches
    (Observer.recorder fun _ => true) [] freshDatabase rfl hfresh
  have hrow : atVersionTwo.contents.stored = (userPatches.apply (Observer.recorder fun _ => true) []
      freshDatabase).database.contents.stored := by
    rw [hfirst.contents]
    rfl
  obtain ⟨-, hsecond⟩ := hthen _ _ _ _ (Observer.recorder fun _ => true) [] atVersionTwo
    ofCatalog_laterPatches hrow (by decide)
  obtain ⟨row, hok⟩ := hsecond.succeeds hlater hadmits
  refine ⟨rfl, hfresh, hfirst, ⟨row, hok⟩, ?_⟩
  rw [hsecond.complete row hok]
  rfl

end Migrator

end QueryBook
