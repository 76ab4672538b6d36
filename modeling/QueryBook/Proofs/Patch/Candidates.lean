import Mathlib.Data.List.Nodup
import QueryBook.Proofs.Patch.Discover
import QueryBook.Proofs.Patch.Version

/-!
# Just the right patches are found

Whether patches are found in a catalog, and which, is said here of the names of its queries alone:
every name that begins with the prefix must have a version behind it, and no two of them the same
(`Discoverable`). Then the patches are just these names with their versions (`Listing`).
-/

namespace QueryBook.Patch

variable {patchPrefix : String} {version : Int64}

/-! ## Versions -/

/-- A version that is read is at least 1, because its digits are not all zeros. -/
theorem one_le_of_readVersion {rest : String} (h : readVersion rest = some version) :
    1 ≤ version := by
  obtain ⟨head, -, -, hversion, rfl⟩ := exists_head h
  have hpos := hversion.pos
  rw [Int64.le_iff_toInt_le, hversion.toInt_ofNat]
  show (1 : Int) ≤ (Text.Decimal.value head : Int)
  omega

/-! ## Names of a catalog -/

variable {c : Catalog} {patches : List Patch}

theorem mem_named_iff {p : Patch} : p ∈ named c patchPrefix ↔
    ∃ rest, c.contains (patchPrefix ++ rest) = true ∧ readVersion rest = some p.version ∧
      p.name = patchPrefix ++ rest := by
  unfold named
  rw [List.mem_filterMap]
  simp only [ofName?_eq_some_iff, Catalog.mem_map_name_iff, ← Catalog.contains_iff]
  constructor
  · rintro ⟨name, hname, rest, rfl, hversion, hp⟩
    exact ⟨rest, hname, hversion, hp⟩
  · rintro ⟨rest, hname, hversion, hp⟩
    exact ⟨_, hname, rest, rfl, hversion, hp⟩

/-- What the names of a catalog must be for patches to be found in it. -/
structure Discoverable (c : Catalog) (patchPrefix : String) : Prop where
  /-- Some name begins with the prefix. -/
  nonempty : ∃ rest, c.contains (patchPrefix ++ rest) = true
  /-- Behind the prefix there is always a version. -/
  readable : ∀ rest, c.contains (patchPrefix ++ rest) = true → readVersion rest ≠ none
  /-- No two names have the same version. -/
  distinct : ∀ first second, c.contains (patchPrefix ++ first) = true →
    c.contains (patchPrefix ++ second) = true → readVersion first = readVersion second →
    first = second

theorem readable_iff : (∀ name ∈ c.toList.map (·.name), rest? patchPrefix name ≠ none →
      ofName? patchPrefix name ≠ none) ↔
    ∀ rest, c.contains (patchPrefix ++ rest) = true → readVersion rest ≠ none := by
  constructor
  · intro h rest hrest
    have hname := Catalog.mem_map_name_iff.2 (Catalog.contains_iff.1 hrest)
    have hself : rest? patchPrefix (patchPrefix ++ rest) = some rest := rest?_eq_some_iff.2 rfl
    have hpatch := h _ hname (by simp [hself])
    simpa [ofName?, hself] using hpatch
  · intro h name hname hbegins
    obtain ⟨rest, hrest⟩ := Option.ne_none_iff_exists'.1 hbegins
    obtain rfl := rest?_eq_some_iff.1 hrest
    have hversion := h rest (Catalog.contains_iff.2 (Catalog.mem_map_name_iff.1 hname))
    simpa [ofName?, hrest] using hversion

/-- The names of the patches that a catalog's names stand for are distinct. -/
theorem pairwise_named : (named c patchPrefix).Pairwise fun a b => a.name ≠ b.name := by
  unfold named
  rw [List.pairwise_filterMap, List.pairwise_map]
  refine c.pairwise_toList.imp ?_
  intro q r hlt a ha b hb heq
  rw [name_of_ofName? ha, name_of_ofName? hb] at heq
  exact String.lt_irrefl _ (heq ▸ hlt)

/-- Among patches with different versions a version tells which one it is. -/
theorem eq_of_version_eq {patches : List Patch}
    (h : patches.Pairwise fun a b => a.version ≠ b.version) {p q : Patch} (hp : p ∈ patches)
    (hq : q ∈ patches) (hversion : p.version = q.version) : p = q := by
  have hsymm : Std.Symm fun a b : Patch => a.version ≠ b.version := ⟨fun _ _ h => h.symm⟩
  by_contra hne
  exact h.forall hp hq hne hversion

theorem distinct_iff (hreadable : ∀ rest, c.contains (patchPrefix ++ rest) = true →
      readVersion rest ≠ none) :
    (named c patchPrefix).Pairwise (fun a b => a.version ≠ b.version) ↔
      ∀ first second, c.contains (patchPrefix ++ first) = true →
        c.contains (patchPrefix ++ second) = true → readVersion first = readVersion second →
        first = second := by
  constructor
  · intro h first second hfirst hsecond hsame
    obtain ⟨version, hversion⟩ := Option.ne_none_iff_exists'.1 (hreadable first hfirst)
    have hp : ⟨version, patchPrefix ++ first⟩ ∈ named c patchPrefix :=
      mem_named_iff.2 ⟨first, hfirst, hversion, rfl⟩
    have hq : ⟨version, patchPrefix ++ second⟩ ∈ named c patchPrefix :=
      mem_named_iff.2 ⟨second, hsecond, hsame ▸ hversion, rfl⟩
    have hpatch := eq_of_version_eq h hp hq rfl
    exact (String.append_right_inj patchPrefix).1 (Patch.mk.inj hpatch).2
  · intro h
    refine (pairwise_named).imp_of_mem ?_
    intro a b ha hb hname hversion
    obtain ⟨first, hfirst, hread, hp⟩ := mem_named_iff.1 ha
    obtain ⟨second, hsecond, hread', hq⟩ := mem_named_iff.1 hb
    rw [← hversion] at hread'
    obtain rfl := h first second hfirst hsecond (hread.trans hread'.symm)
    exact hname (hp.trans hq.symm)

theorem discoverable_iff : Discoverable c patchPrefix ↔
    (∀ name ∈ c.toList.map (·.name), rest? patchPrefix name ≠ none →
        ofName? patchPrefix name ≠ none) ∧
      (named c patchPrefix).Pairwise (fun a b => a.version ≠ b.version) ∧
      named c patchPrefix ≠ [] := by
  rw [readable_iff]
  have hnonempty (hreadable : ∀ rest, c.contains (patchPrefix ++ rest) = true →
      readVersion rest ≠ none) :
      named c patchPrefix ≠ [] ↔ ∃ rest, c.contains (patchPrefix ++ rest) = true := by
    constructor
    · intro hne
      obtain ⟨p, hp⟩ := List.exists_mem_of_ne_nil _ hne
      obtain ⟨rest, hrest, -, -⟩ := mem_named_iff.1 hp
      exact ⟨rest, hrest⟩
    · rintro ⟨rest, hrest⟩
      obtain ⟨version, hversion⟩ := Option.ne_none_iff_exists'.1 (hreadable rest hrest)
      have hp : ⟨version, patchPrefix ++ rest⟩ ∈ named c patchPrefix :=
        mem_named_iff.2 ⟨rest, hrest, hversion, rfl⟩
      exact List.ne_nil_of_mem hp
  constructor
  · intro h
    exact ⟨h.readable, (distinct_iff h.readable).2 h.distinct, (hnonempty h.readable).2 h.nonempty⟩
  · rintro ⟨hreadable, hdistinct, hne⟩
    exact ⟨(hnonempty hreadable).1 hne, hreadable, (distinct_iff hreadable).1 hdistinct⟩

theorem discover_eq_ok_iff : discover c patchPrefix = .ok patches ↔
    Discoverable c patchPrefix ∧ patches = sortByVersion (named c patchPrefix) := by
  rw [discover_eq_ok_iff_named, discoverable_iff]
  simp only [and_assoc]

/-! ## What is found -/

/-- The patches are those of the catalog, in the order of their versions. -/
structure Listing (c : Catalog) (patchPrefix : String) (patches : List Patch) : Prop where
  ascending : patches.Pairwise fun a b => a.version < b.version
  positive : ∀ p ∈ patches, 1 ≤ p.version
  /-- There is a patch for each name that begins with the prefix, and no other. -/
  mem_iff : ∀ p, p ∈ patches ↔ ∃ rest, c.contains (patchPrefix ++ rest) = true ∧
    readVersion rest = some p.version ∧ p.name = patchPrefix ++ rest
  /-- And only one. -/
  nodup : (patches.map (·.name)).Nodup

theorem listing_sortByVersion (h : Discoverable c patchPrefix) :
    Listing c patchPrefix (sortByVersion (named c patchPrefix)) where
  ascending := pairwise_sortByVersion (discoverable_iff.1 h).2.1
  positive p hp := by
    obtain ⟨rest, -, hversion, -⟩ := mem_named_iff.1 (List.mem_mergeSort.1 hp)
    exact one_le_of_readVersion hversion
  mem_iff p := List.mem_mergeSort.trans mem_named_iff
  nodup := by
    have hperm : (named c patchPrefix).Perm (sortByVersion (named c patchPrefix)) :=
      (List.mergeSort_perm _ _).symm
    exact List.pairwise_map.2 (hperm.pairwise pairwise_named fun hne => hne.symm)

/-- What is found in a catalog lists its patches, of which there is at least one. -/
theorem listing_of_discover (h : discover c patchPrefix = .ok patches) :
    Listing c patchPrefix patches ∧ patches ≠ [] := by
  obtain ⟨hdiscoverable, rfl⟩ := discover_eq_ok_iff.1 h
  refine ⟨listing_sortByVersion hdiscoverable, fun hnil => ?_⟩
  have hperm : (sortByVersion (named c patchPrefix)).Perm (named c patchPrefix) :=
    List.mergeSort_perm _ _
  rw [hnil] at hperm
  exact (discoverable_iff.1 hdiscoverable).2.2 hperm.nil_eq.symm

/-- There is only one listing. -/
theorem Listing.eq {other : List Patch} (h : Listing c patchPrefix patches)
    (hother : Listing c patchPrefix other) : patches = other := by
  have hperm : patches.Perm other := by
    refine (List.perm_ext_iff_of_nodup (.of_map _ h.nodup) (.of_map _ hother.nodup)).2 fun p => ?_
    rw [h.mem_iff, hother.mem_iff]
  refine hperm.eq_of_pairwise ?_ h.ascending hother.ascending
  intro a b _ _ hab hba
  exact absurd (Int64.lt_trans hab hba) Int64.lt_irrefl

/-- Patches are found in a catalog just if some name begins with the prefix, a version can be read
behind it in every such name, and no two of these versions are the same. What is found then is a
patch for each such name with its version, one for each and no other, and the patches are in
ascending order of their versions, which are at least 1. -/
theorem discover_eq_ok_iff_listing (c : Catalog) (patchPrefix : String) :
    ((∃ patches, discover c patchPrefix = .ok patches) ↔ Discoverable c patchPrefix) ∧
      ∀ patches, discover c patchPrefix = .ok patches ↔
        Discoverable c patchPrefix ∧ Listing c patchPrefix patches := by
  refine ⟨⟨?_, fun h => ⟨_, discover_eq_ok_iff.2 ⟨h, rfl⟩⟩⟩, fun patches => ?_⟩
  · rintro ⟨patches, hpatches⟩
    exact (discover_eq_ok_iff.1 hpatches).1
  · rw [discover_eq_ok_iff]
    refine and_congr_right fun h => ⟨?_, fun hpatches => hpatches.eq (listing_sortByVersion h)⟩
    rintro rfl
    exact listing_sortByVersion h

end QueryBook.Patch
