import QueryBook.Migration.Migrator
import QueryBook.Proofs.Catalog.Lookup
import QueryBook.Proofs.Sorting

/-!
# Patches that are found in a catalog

Every name of a catalog stands for a patch or for none (`Patch.ofName?`). Patches are found if all
names that begin with the prefix stand for one and no two of these have the same version; what is
found are these patches in the order of their versions (`Patch.discover_eq_ok_iff_named`).
-/

namespace QueryBook

namespace Patch

variable {patchPrefix name : String}

/-! ## Names -/

theorem rest?_eq_some_iff {rest : String} :
    rest? patchPrefix name = some rest ↔ name = patchPrefix ++ rest := by
  unfold rest?
  rw [Option.map_eq_some_iff]
  constructor
  · rintro ⟨chars, hchars, rfl⟩
    rw [List.isPrefixOf?_eq_some_iff_append_eq] at hchars
    rw [← String.toList_inj, String.toList_append, String.toList_ofList, hchars]
  · rintro rfl
    refine ⟨rest.toList, ?_, String.ofList_toList⟩
    rw [List.isPrefixOf?_eq_some_iff_append_eq, String.toList_append]

/-- The patch that a name stands for, if it begins with the prefix and has a version. -/
def ofName? (patchPrefix name : String) : Option Patch :=
  (rest? patchPrefix name).bind fun rest => (readVersion rest).map fun version => ⟨version, name⟩

theorem ofName?_eq_some_iff {p : Patch} : ofName? patchPrefix name = some p ↔
    ∃ rest, name = patchPrefix ++ rest ∧ readVersion rest = some p.version ∧ p.name = name := by
  obtain ⟨version, label⟩ := p
  simp only [ofName?, Option.bind_eq_some_iff, Option.map_eq_some_iff, rest?_eq_some_iff,
    Patch.mk.injEq]
  constructor
  · rintro ⟨rest, hname, version, hversion, rfl, rfl⟩
    exact ⟨rest, hname, hversion, rfl⟩
  · rintro ⟨rest, hname, hversion, hlabel⟩
    exact ⟨rest, hname, version, hversion, rfl, hlabel.symm⟩

theorem name_of_ofName? {p : Patch} (h : ofName? patchPrefix name = some p) : p.name = name := by
  obtain ⟨-, -, -, hname⟩ := ofName?_eq_some_iff.1 h
  exact hname

/-! ## Collecting -/

/-- Collecting succeeds just if every name that begins with the prefix has a version and all
versions are different; then it adds the patches that the names stand for. -/
theorem collect_eq_ok_iff {names : List String} {found patches : List Patch}
    (hfound : found.Pairwise fun a b => a.version ≠ b.version) :
    collect patchPrefix found names = .ok patches ↔
      (∀ name ∈ names, rest? patchPrefix name ≠ none → ofName? patchPrefix name ≠ none) ∧
        patches = found ++ names.filterMap (ofName? patchPrefix) ∧
        patches.Pairwise fun a b => a.version ≠ b.version := by
  induction names generalizing found with
  | nil =>
    simp only [collect, List.filterMap_nil, List.append_nil, Except.ok.injEq]
    constructor
    · rintro rfl
      exact ⟨by simp, rfl, hfound⟩
    · rintro ⟨-, rfl, -⟩
      rfl
  | cons name names ih =>
    rw [List.forall_mem_cons]
    unfold collect
    cases hrest : rest? patchPrefix name with
    | none =>
      have hnone : ofName? patchPrefix name = none := by simp [ofName?, hrest]
      dsimp only
      rw [ih hfound, List.filterMap_cons_none hnone]
      simp
    | some rest =>
      cases hversion : readVersion rest with
      | none =>
        have hnone : ofName? patchPrefix name = none := by simp [ofName?, hrest, hversion]
        simp [hnone, hversion]
      | some version =>
        have hsome : ofName? patchPrefix name = some ⟨version, name⟩ := by
          simp [ofName?, hrest, hversion]
        rw [List.filterMap_cons_some hsome, hsome]
        simp only [hversion]
        split
        · rename_i first htaken
          -- the version is taken, by a patch that was found before
          have hmem : first ∈ found := List.mem_of_find?_eq_some htaken
          have hsame : first.version = version := by simpa using List.find?_some htaken
          refine iff_of_false (fun hok => by cases hok) ?_
          rintro ⟨-, rfl, hpairwise⟩
          exact (List.pairwise_append.1 hpairwise).2.2 first hmem _ List.mem_cons_self hsame
        · rename_i hfree
          have hnext : List.Pairwise (fun a b : Patch => a.version ≠ b.version)
              (found ++ [⟨version, name⟩]) := by
            refine List.pairwise_append.2 ⟨hfound, List.pairwise_singleton _ _, ?_⟩
            intro a ha b hb
            cases List.mem_singleton.1 hb
            simpa using List.find?_eq_none.1 hfree a ha
          rw [ih hnext, List.append_assoc, List.singleton_append]
          simp

/-! ## Sorting -/

theorem pairwise_sortByVersion {patches : List Patch}
    (h : patches.Pairwise fun a b => a.version ≠ b.version) :
    (sortByVersion patches).Pairwise fun a b => a.version < b.version :=
  pairwise_mergeSort_key version h

/-- Sorting brings patches into the order in which they ascend. -/
theorem sortByVersion_eq_of_perm {patches ascending : List Patch} (hperm : patches.Perm ascending)
    (h : ascending.Pairwise fun a b => a.version < b.version) :
    sortByVersion patches = ascending :=
  mergeSort_key_eq version hperm h

/-! ## Finding -/

variable {c : Catalog} {patches : List Patch}

/-- The patches that the names of a catalog stand for, in the order of the names. -/
def named (c : Catalog) (patchPrefix : String) : List Patch :=
  (c.toList.map (·.name)).filterMap (ofName? patchPrefix)

/-- Finding is collecting and then sorting, unless there is nothing to sort. -/
theorem discover_eq_ok_iff_named : discover c patchPrefix = .ok patches ↔
    (∀ name ∈ c.toList.map (·.name), rest? patchPrefix name ≠ none →
        ofName? patchPrefix name ≠ none) ∧
      (named c patchPrefix).Pairwise (fun a b => a.version ≠ b.version) ∧
      named c patchPrefix ≠ [] ∧ patches = sortByVersion (named c patchPrefix) := by
  unfold discover
  cases hcollect : collect patchPrefix [] (c.toList.map (·.name)) with
  | error e =>
    refine iff_of_false (fun hok => by cases hok) ?_
    rintro ⟨hread, hdistinct, -⟩
    have hok := (collect_eq_ok_iff .nil).2 ⟨hread, rfl, hdistinct⟩
    rw [hcollect] at hok
    cases hok
  | ok found =>
    obtain ⟨hread, hfound, hdistinct⟩ := (collect_eq_ok_iff .nil).1 hcollect
    obtain rfl : found = named c patchPrefix := hfound
    cases hnamed : named c patchPrefix with
    | nil => simp
    | cons p rest =>
      rw [hnamed] at hdistinct
      simp only [Except.ok.injEq, ne_eq, reduceCtorEq, not_false_eq_true, true_and]
      exact ⟨fun h => ⟨hread, hdistinct, h.symm⟩, fun h => h.2.2.symm⟩

/-- Each patch that is found stands for a query of the catalog. -/
theorem exists_ofName?_of_mem_discover (h : discover c patchPrefix = .ok patches) :
    ∀ p ∈ patches, p.name ∈ c.toList.map (·.name) ∧ ofName? patchPrefix p.name = some p := by
  obtain ⟨-, -, -, rfl⟩ := discover_eq_ok_iff_named.1 h
  intro p hp
  obtain ⟨name, hname, hpatch⟩ := List.mem_filterMap.1 (List.mem_mergeSort.1 hp)
  rw [name_of_ofName? hpatch]
  exact ⟨hname, hpatch⟩

/-- The name of every patch begins with the prefix. -/
theorem rest?_of_mem_discover (h : discover c patchPrefix = .ok patches) :
    ∀ p ∈ patches, rest? patchPrefix p.name ≠ none := by
  intro p hp hnone
  have hpatch := (exists_ofName?_of_mem_discover h p hp).2
  rw [ofName?, hnone] at hpatch
  cases hpatch

/-- The name of every patch is that of a query. -/
theorem mem_names_of_mem_discover (h : discover c patchPrefix = .ok patches) :
    ∀ p ∈ patches, p.name ∈ c.toList.map (·.name) :=
  fun p hp => (exists_ofName?_of_mem_discover h p hp).1

/-- The versions of the patches of a catalog are strictly ascending. -/
theorem pairwise_discover (h : discover c patchPrefix = .ok patches) :
    patches.Pairwise fun a b => a.version < b.version := by
  obtain ⟨-, hdistinct, -, rfl⟩ := discover_eq_ok_iff_named.1 h
  exact pairwise_sortByVersion hdistinct

end Patch

namespace Migrator

/-- The migrator of a catalog has the patches that are found in it. -/
theorem ofCatalog_eq_ok {c : Catalog} {patchPrefix : String} {m : Migrator}
    (h : ofCatalog c patchPrefix = .ok m) :
    m.catalog = c ∧ Patch.discover c patchPrefix = .ok m.patches := by
  unfold ofCatalog at h
  cases hpatches : Patch.discover c patchPrefix with
  | error e =>
    rw [hpatches] at h
    cases h
  | ok patches =>
    rw [hpatches] at h
    cases h
    exact ⟨rfl, rfl⟩

/-- The patches of a migrator are known from what is collected. -/
theorem ofCatalog_of_collect {c : Catalog} {patchPrefix : String} {found patches : List Patch}
    (hcollect : Patch.collect patchPrefix [] (c.toList.map (·.name)) = .ok found) (hne : found ≠ [])
    (hperm : found.Perm patches) (h : patches.Pairwise fun a b => a.version < b.version) :
    ofCatalog c patchPrefix = .ok ⟨c, patches⟩ := by
  have hdiscover : Patch.discover c patchPrefix = .ok (Patch.sortByVersion found) := by
    unfold Patch.discover
    rw [hcollect]
    cases found with
    | nil => exact absurd rfl hne
    | cons p rest => rfl
  unfold ofCatalog
  rw [hdiscover, Patch.sortByVersion_eq_of_perm hperm h]
  rfl

end Migrator

end QueryBook
