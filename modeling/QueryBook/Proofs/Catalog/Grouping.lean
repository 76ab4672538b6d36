import Mathlib.Data.List.Perm.Basic
import QueryBook.Patch
import QueryBook.Proofs.Catalog.History

/-!
# Queries spread over sources in another way

Sources are loaded into an empty catalog in batches. If no name is defined twice, the catalog that
comes of it depends on nothing but which queries the sources define: not on how the queries are
spread over the sources, nor on the order of the sources or of the batches. So the same patches are
found, or the same error with the same names in it (`discover_loadBatches`).
-/

namespace QueryBook.Catalog

variable {c : Catalog} {definitions : List Query}

/-- With distinct names, what is listed is what has been added. -/
theorem mem_toList_insertAll_iff (h : definitions.Pairwise fun a b => a.name ≠ b.name) {q : Query} :
    q ∈ ((∅ : Catalog).insertAll definitions).toList ↔ q ∈ definitions := by
  rw [mem_toList_iff]
  constructor
  · intro hget
    rcases get?_insertAll_eq_some_iff.1 hget with ⟨-, before, after, rfl, -⟩ | ⟨hempty, -⟩
    · simp
    · cases hempty
  · exact get?_insertAll_of_mem h

/-- With distinct names, the listing is what has been added, in the order of the names. -/
theorem toList_insertAll_perm (h : definitions.Pairwise fun a b => a.name ≠ b.name) :
    ((∅ : Catalog).insertAll definitions).toList.Perm definitions := by
  have hlisted : ((∅ : Catalog).insertAll definitions).toList.Nodup := by
    refine (pairwise_toList _).imp ?_
    rintro q _ hlt rfl
    exact String.lt_irrefl _ hlt
  have hadded : definitions.Nodup := by
    refine h.imp ?_
    rintro q _ hne rfl
    exact hne rfl
  exact (List.perm_ext_iff_of_nodup hlisted hadded).2 fun q => mem_toList_insertAll_iff h

/-- Only one listing has the given queries. -/
theorem toList_eq_of_perm {d : Catalog} (h : c.toList.Perm d.toList) : c.toList = d.toList := by
  refine List.Perm.eq_of_pairwise ?_ c.pairwise_toList d.pairwise_toList h
  intro a b _ _ hab hba
  exact absurd (String.lt_trans hab hba) (String.lt_irrefl _)

/-- Loads batches of sources one after another. -/
def loadBatches (c : Catalog) : List (List Source) → Except LoadError Catalog
  | [] => .ok c
  | batch :: rest =>
    match c.load batch with
    | .error e => .error e
    | .ok c => c.loadBatches rest

/-- Batches of sources without errors are loaded, whatever was loaded before. -/
theorem loadBatches_eq {batches : List (List Source)}
    (h : ∀ source ∈ batches.flatten, source.error? = none) :
    c.loadBatches batches = .ok (c.insertAll (batches.flatten.flatMap Source.definitions)) := by
  induction batches generalizing c with
  | nil => rfl
  | cons batch rest ih =>
    rw [List.flatten_cons] at h ⊢
    have hbatch : batch.findSome? Source.error? = none :=
      List.findSome?_eq_none_iff.2 fun source hsource => h source (List.mem_append_left _ hsource)
    have hload := Loading.load_eq c batch
    rw [hbatch] at hload
    unfold loadBatches
    rw [hload, List.flatMap_append, insertAll_append]
    exact ih fun source hsource => h source (List.mem_append_right _ hsource)

/-- Batches of sources without errors that define the same queries under distinct names are all
loaded. Whichever way the queries are spread over sources and batches, the catalog lists just them,
and with every prefix the same patches are found, or the same error. -/
theorem discover_loadBatches (first second : List (List Source))
    (hfirst : ∀ source ∈ first.flatten, source.error? = none)
    (hsecond : ∀ source ∈ second.flatten, source.error? = none)
    (hsame : (first.flatten.flatMap Source.definitions).Perm
      (second.flatten.flatMap Source.definitions))
    (hdistinct : (first.flatten.flatMap Source.definitions).Pairwise fun a b => a.name ≠ b.name) :
    ∃ c d, (∅ : Catalog).loadBatches first = .ok c ∧ (∅ : Catalog).loadBatches second = .ok d ∧
      c.toList.Perm (first.flatten.flatMap Source.definitions) ∧ c.toList = d.toList ∧
      ∀ patchPrefix, Patch.discover c patchPrefix = Patch.discover d patchPrefix := by
  have hlisted := toList_insertAll_perm hdistinct
  have hlisted' := toList_insertAll_perm (hsame.pairwise hdistinct fun hne => hne.symm)
  have htoList := toList_eq_of_perm (hlisted.trans (hsame.trans hlisted'.symm))
  refine ⟨_, _, loadBatches_eq hfirst, loadBatches_eq hsecond, hlisted, htoList, ?_⟩
  intro patchPrefix
  unfold Patch.discover
  rw [htoList]

/-- Two patches of one version. -/
def clash : Query × Query :=
  (⟨"patch-0007-a", "SELECT 1", []⟩, ⟨"patch-007-b", "SELECT 2", []⟩)

/-- Both patches in one source. -/
def clashTogether : List (List Source) :=
  [[⟨"all.sql", clash.1.sourceText ++ clash.2.sourceText⟩]]

/-- Each patch in a source of its own, the second patch loaded first. -/
def clashApart : List (List Source) :=
  [[⟨"b.sql", clash.2.sourceText⟩], [⟨"a.sql", clash.1.sourceText⟩]]

theorem discover_clash :
    (∀ source ∈ clashTogether.flatten, source.error? = none) ∧
      (∀ source ∈ clashApart.flatten, source.error? = none) ∧
      (clashTogether.flatten.flatMap Source.definitions).Perm
        (clashApart.flatten.flatMap Source.definitions) ∧
      ∃ c d, (∅ : Catalog).loadBatches clashTogether = .ok c ∧
        (∅ : Catalog).loadBatches clashApart = .ok d ∧
        Patch.discover c "patch-" =
          .error (.duplicatePatchVersion 7 "patch-0007-a" "patch-007-b") ∧
        Patch.discover d "patch-" =
          .error (.duplicatePatchVersion 7 "patch-0007-a" "patch-007-b") := by
  have htogether : ∀ source ∈ clashTogether.flatten, source.error? = none := by decide +kernel
  have hapart : ∀ source ∈ clashApart.flatten, source.error? = none := by decide +kernel
  have hfirst : clashTogether.flatten.flatMap Source.definitions = [clash.1, clash.2] := by
    decide +kernel
  have hsecond : clashApart.flatten.flatMap Source.definitions = [clash.2, clash.1] := by
    decide +kernel
  have hsame : (clashTogether.flatten.flatMap Source.definitions).Perm
      (clashApart.flatten.flatMap Source.definitions) := by
    rw [hfirst, hsecond]
    exact .swap _ _ _
  have hdistinct : (clashTogether.flatten.flatMap Source.definitions).Pairwise
      fun a b => a.name ≠ b.name := by
    rw [hfirst]
    decide
  obtain ⟨c, d, hc, hd, -, -, hdiscover⟩ :=
    discover_loadBatches clashTogether clashApart htogether hapart hsame hdistinct
  have hclash : Patch.discover c "patch-" =
      .error (.duplicatePatchVersion 7 "patch-0007-a" "patch-007-b") := by
    rw [loadBatches_eq htogether, hfirst] at hc
    cases hc
    decide +kernel
  exact ⟨htogether, hapart, hsame, c, d, hc, hd, hclash, (hdiscover "patch-").symm.trans hclash⟩

end QueryBook.Catalog
