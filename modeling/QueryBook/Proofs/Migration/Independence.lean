import Mathlib.Data.List.Sort
import QueryBook.Proofs.Migration.Bookkeeping
import QueryBook.Proofs.Migration.Status

/-!
# Queries that are no patches do not matter

A migration depends on those queries of a catalog whose names begin with the prefix and on no
others. Two catalogs that hold the same of them have the same patches, and whatever is then asked of
a database, it is sent the same statements and the same comes of it (`ofCatalog_of_agreeOn`). The
queries on the version table are not looked up in the catalog at all.
-/

namespace QueryBook

/-! ## Catalogs that agree -/

/-- Both catalogs hold the same queries among those whose names begin with the prefix. -/
def Catalog.AgreeOn (patchPrefix : String) (c d : Catalog) : Prop :=
  ∀ name : String, patchPrefix.toList <+: name.toList → c.get? name = d.get? name

/-- A query whose name does not begin with the prefix may be added. -/
theorem Catalog.AgreeOn.insert {patchPrefix : String} {c d : Catalog} (h : c.AgreeOn patchPrefix d)
    {q : Query} (hq : ¬ patchPrefix.toList <+: q.name.toList) :
    c.AgreeOn patchPrefix (d.insert q) := by
  intro name hname
  have hne : name ≠ q.name := fun heq => hq (heq ▸ hname)
  rw [get?_insert, if_neg hne]
  exact h name hname

namespace Patch

variable {patchPrefix : String}

theorem rest?_isSome_iff {name : String} :
    (rest? patchPrefix name).isSome = true ↔ patchPrefix.toList <+: name.toList := by
  unfold rest?
  rw [Option.isSome_map, List.isSome_isPrefixOf?_eq_isPrefixOf, List.isPrefixOf_iff_prefix]

/-- Names that do not begin with the prefix are passed over. -/
theorem collect_filter (found : List Patch) (names : List String) :
    collect patchPrefix found (names.filter fun name => (rest? patchPrefix name).isSome) =
      collect patchPrefix found names := by
  induction names generalizing found with
  | nil => rfl
  | cons name rest ih =>
    cases hrest : rest? patchPrefix name with
    | none =>
      rw [List.filter_cons_of_neg (by simp [hrest]), ih]
      simp only [collect, hrest]
    | some remainder =>
      rw [List.filter_cons_of_pos (by simp [hrest])]
      unfold collect
      simp only [hrest]
      cases readVersion remainder with
      | none => rfl
      | some version =>
        dsimp only
        split
        · rfl
        · exact ih _

/-- Catalogs that agree have the same names with the prefix, in the same order. -/
theorem filter_names_eq {c d : Catalog} (h : c.AgreeOn patchPrefix d) :
    (c.toList.map (·.name)).filter (fun name => (rest? patchPrefix name).isSome) =
      (d.toList.map (·.name)).filter fun name => (rest? patchPrefix name).isSome := by
  have hsorted : ∀ c : Catalog, ((c.toList.map (·.name)).filter fun name =>
      (rest? patchPrefix name).isSome).Pairwise (· < ·) := fun c =>
    (List.pairwise_map.2 c.pairwise_toList).filter _
  refine (hsorted c).eq_of_mem_iff (hsorted d) fun name => ?_
  rw [List.mem_filter, List.mem_filter, rest?_isSome_iff, Catalog.mem_map_name_iff,
    Catalog.mem_map_name_iff]
  exact and_congr_left fun hname => by rw [h name hname]

theorem discover_congr {c d : Catalog} (h : c.AgreeOn patchPrefix d) :
    discover c patchPrefix = discover d patchPrefix := by
  unfold discover
  rw [← collect_filter [] (c.toList.map (·.name)), filter_names_eq h, collect_filter]

end Patch

/-! ## Sessions that do the same -/

namespace Migration

variable {σ ω : Type} {session other : Session σ} {patches : List Patch}

/-- Two sessions do the same as long as no patches but the given ones are run. -/
structure Session.SameOn (patches : List Patch) (session other : Session σ) : Prop where
  ensureTable : session.ensureTable = other.ensureTable
  readVersion : session.readVersion = other.readVersion
  seedVersion : session.seedVersion = other.seedVersion
  runPatch : ∀ p ∈ patches, session.runPatch p = other.runPatch p
  storeVersion : session.storeVersion = other.storeVersion

theorem applyFrom_congr (h : Session.SameOn patches session other) (observer : Observer ω)
    (current : VersionRow) (s : σ) (o : ω) :
    applyFrom session observer current s o patches =
      applyFrom other observer current s o patches := by
  induction patches generalizing current s o with
  | nil => rfl
  | cons p rest ih =>
    have hrest : Session.SameOn rest session other :=
      { h with runPatch := fun q hq => h.runPatch q (List.mem_cons_of_mem _ hq) }
    unfold applyFrom
    simp only [h.runPatch p List.mem_cons_self, h.storeVersion, ih hrest]

theorem applyAll_congr (h : Session.SameOn patches session other) (observer : Observer ω) (s : σ)
    (o : ω) : applyAll session observer patches s o = applyAll other observer patches s o := by
  unfold applyAll
  simp only [h.ensureTable, h.readVersion, h.seedVersion, applyFrom_congr h]

end Migration

namespace Migrator

open Migration (Observer Session applyAll_congr)

theorem applyThrough_congr {ω : Type} {patches : List Patch} {session other : Session Database}
    (h : Session.SameOn patches session other) (observer : Observer ω) (o : ω) (db : Database) :
    applyThrough session observer patches o db = applyThrough other observer patches o db := by
  unfold applyThrough
  simp only [applyAll_congr h]

/-- The patches of one catalog run alike in another that agrees with it. -/
theorem sameOn_of_agreeOn {patchPrefix : String} {c d : Catalog} (h : c.AgreeOn patchPrefix d)
    {patches : List Patch} (hpatches : Patch.discover c patchPrefix = .ok patches) :
    Session.SameOn patches (session ⟨c, patches⟩) (session ⟨d, patches⟩) where
  ensureTable := rfl
  readVersion := rfl
  seedVersion := rfl
  runPatch p hp := by
    have hprefix : (Patch.rest? patchPrefix p.name).isSome = true :=
      Option.isSome_iff_ne_none.2 (Patch.rest?_of_mem_discover hpatches p hp)
    have hget : c.get? p.name = d.get? p.name := h p.name (Patch.rest?_isSome_iff.1 hprefix)
    funext db
    show dropValue (c.execute p.name ∅ db) = dropValue (d.execute p.name ∅ db)
    unfold Catalog.execute Catalog.withQuery Catalog.lookup
    rw [hget]
  storeVersion := rfl

/-- Two catalogs that hold the same queries among those whose names begin with the prefix either are
refused with the same error, or have the same patches. In the second case an attempt to apply them
returns the same, leaves the same database with the same log, and tells every observer the same; and
the same patches are listed as pending. The queries on the version table come from a source and a
catalog of their own, and it takes no other catalog to report the stored version. -/
theorem ofCatalog_of_agreeOn (patchPrefix : String) (c d : Catalog) (h : c.AgreeOn patchPrefix d) :
    (∃ e, ofCatalog c patchPrefix = .error e ∧ ofCatalog d patchPrefix = .error e) ∨
      ∃ m n, ofCatalog c patchPrefix = .ok m ∧ ofCatalog d patchPrefix = .ok n ∧
        m.patches = n.patches ∧
        (∀ (ω : Type) (observer : Observer ω) (o : ω) (db : Database),
          m.apply observer o db = n.apply observer o db) ∧
        (∀ db, m.pending db = n.pending db) ∧
        (∅ : Catalog).load [VersionQuery.source] = .ok bookkeeping ∧
        m.session = m.sessionOver bookkeeping ∧ n.session = n.sessionOver bookkeeping ∧
        ∀ db, currentVersion db = currentVersionOver bookkeeping db := by
  have hsame : Patch.discover d patchPrefix = Patch.discover c patchPrefix :=
    (Patch.discover_congr h).symm
  unfold ofCatalog
  rw [hsame]
  cases hpatches : Patch.discover c patchPrefix with
  | error e => exact .inl ⟨e, rfl, rfl⟩
  | ok patches =>
    refine .inr ⟨⟨c, patches⟩, ⟨d, patches⟩, rfl, rfl, rfl, ?_, fun db => rfl,
      load_source, (sessionOver_bookkeeping _).symm, (sessionOver_bookkeeping _).symm,
      fun db => (currentVersionOver_bookkeeping db).symm⟩
    intro ω observer o db
    exact applyThrough_congr (sameOn_of_agreeOn h hpatches) observer o db

/-- The catalog of two patches with queries besides them, one of which has the name of a query on the
version table. -/
def crowdedCatalog : Catalog :=
  (userPatches.catalog.insert ⟨"quire.update-db-version", "DROP TABLE quire_db_version", []⟩).insert
    ⟨"get-user", "SELECT id FROM users WHERE mail = $1", ["mail"]⟩

theorem ofCatalog_crowdedCatalog :
    userPatches.catalog.AgreeOn "patch-" crowdedCatalog ∧
      crowdedCatalog.get? "quire.update-db-version" =
        some ⟨"quire.update-db-version", "DROP TABLE quire_db_version", []⟩ ∧
      ∃ n, ofCatalog crowdedCatalog "patch-" = .ok n ∧
        ∀ db, n.apply Observer.silent () db = userPatches.apply Observer.silent () db := by
  have hagree : userPatches.catalog.AgreeOn "patch-" crowdedCatalog :=
    have hsame : userPatches.catalog.AgreeOn "patch-" userPatches.catalog := fun _ _ => rfl
    (hsame.insert (by decide +kernel)).insert (by decide +kernel)
  refine ⟨hagree, by decide +kernel, ?_⟩
  rcases ofCatalog_of_agreeOn "patch-" _ _ hagree with ⟨e, herror, -⟩ | ⟨m, n, hm, hn, -, happly, -⟩
  · rw [ofCatalog_userPatches] at herror
    cases herror
  · rw [ofCatalog_userPatches] at hm
    cases hm
    exact ⟨n, hn, fun db => (happly Unit Observer.silent () db).symm⟩

end Migrator

end QueryBook
