import QueryBook.Proofs.Patch.Candidates
import QueryBook.Proofs.Text.Utf8

/-!
# What is wrong with the patches of a catalog

If no patches are found in a catalog, either no name begins with the prefix, or some of the names
that do are bad: they have no version, or the version of an earlier one. Then the first bad name in
the order of bytes decides which error it is (`discover_eq_error_iff`).
-/

namespace QueryBook.Patch

variable {c : Catalog} {patchPrefix rest : String} {e : LoadError}

/-! ## Bad names -/

/-- Names that begin with the prefix are given by what follows it. The first of the two is in the
catalog and comes before the second in the order of bytes. -/
structure Earlier (c : Catalog) (patchPrefix first second : String) : Prop where
  contains : c.contains (patchPrefix ++ first) = true
  lt : Text.Utf8.encode (patchPrefix ++ first) < Text.Utf8.encode (patchPrefix ++ second)

/-- A name has no version, or an earlier one has the same. -/
def IsBad (c : Catalog) (patchPrefix rest : String) : Prop :=
  readVersion rest = none ∨
    ∃ other, Earlier c patchPrefix other rest ∧ readVersion other = readVersion rest

/-- The first name in a catalog that is bad. -/
structure IsFirstBad (c : Catalog) (patchPrefix rest : String) : Prop where
  contains : c.contains (patchPrefix ++ rest) = true
  bad : IsBad c patchPrefix rest
  first : ∀ other, Earlier c patchPrefix other rest → ¬ IsBad c patchPrefix other

/-- What is wrong with a name, as an error. -/
inductive Fault (c : Catalog) (patchPrefix rest : String) : LoadError → Prop
  | invalidName (h : readVersion rest = none) :
    Fault c patchPrefix rest (.invalidPatchName (patchPrefix ++ rest))
  /-- The version belongs to just one earlier name. -/
  | duplicate {first : String} {version : Int64} (h : readVersion rest = some version)
      (hfirst : ∀ other, Earlier c patchPrefix other rest ∧ readVersion other = some version ↔
        other = first) :
    Fault c patchPrefix rest
      (.duplicatePatchVersion version (patchPrefix ++ first) (patchPrefix ++ rest))

theorem IsFirstBad.eq {other : String} (h : IsFirstBad c patchPrefix rest)
    (hother : IsFirstBad c patchPrefix other) : rest = other := by
  have hle : ¬ patchPrefix ++ rest < patchPrefix ++ other := fun hlt =>
    hother.first rest ⟨h.contains, Text.Utf8.encode_lt_encode hlt⟩ h.bad
  have hge : ¬ patchPrefix ++ other < patchPrefix ++ rest := fun hlt =>
    h.first other ⟨hother.contains, Text.Utf8.encode_lt_encode hlt⟩ hother.bad
  have hname := String.le_antisymm (String.not_lt.1 hge) (String.not_lt.1 hle)
  exact (String.append_right_inj patchPrefix).1 hname

theorem Fault.eq {other : LoadError} (h : Fault c patchPrefix rest e)
    (hother : Fault c patchPrefix rest other) : e = other := by
  cases h with
  | invalidName hnone =>
    cases hother with
    | invalidName _ => rfl
    | duplicate hsome _ => exact absurd (hnone.symm.trans hsome) (by simp)
  | duplicate hsome hfirst =>
    cases hother with
    | invalidName hnone => exact absurd (hnone.symm.trans hsome) (by simp)
    | duplicate hsome' hfirst' =>
      obtain rfl := Option.some.inj (hsome.symm.trans hsome')
      rw [(hfirst' _).1 ((hfirst _).2 rfl)]

/-! ## Collecting up to the first bad name -/

/-- The patches after one more name. -/
def add (patchPrefix : String) (found : List Patch) (name : String) :
    Except LoadError (List Patch) :=
  match rest? patchPrefix name with
  | none => .ok found
  | some rest =>
    match readVersion rest with
    | none => .error (.invalidPatchName name)
    | some version =>
      match found.find? (·.version == version) with
      | some first => .error (.duplicatePatchVersion version first.name name)
      | none => .ok (found ++ [⟨version, name⟩])

theorem collect_cons (found : List Patch) (name : String) (names : List String) :
    collect patchPrefix found (name :: names) =
      match add patchPrefix found name with
      | .error e => .error e
      | .ok next => collect patchPrefix next names := by
  unfold add
  rw [collect]
  cases rest? patchPrefix name with
  | none => rfl
  | some rest =>
    dsimp only
    cases readVersion rest with
    | none => rfl
    | some version =>
      dsimp only
      cases found.find? (·.version == version) <;> rfl

/-- One name is an error if it has no version or one that is taken. -/
theorem add_eq_error_iff {found : List Patch} {name : String} :
    add patchPrefix found name = .error e ↔ ∃ rest, name = patchPrefix ++ rest ∧
      (readVersion rest = none ∧ e = .invalidPatchName name ∨
        ∃ version first, readVersion rest = some version ∧
          found.find? (·.version == version) = some first ∧
          e = .duplicatePatchVersion version first.name name) := by
  simp only [← rest?_eq_some_iff]
  unfold add
  cases rest? patchPrefix name with
  | none => simp
  | some rest =>
    cases hversion : readVersion rest with
    | none => simp [hversion, eq_comm]
    | some version =>
      cases hfind : found.find? (·.version == version) with
      | none => simp [hversion, hfind]
      | some first => simp [hversion, hfind, eq_comm]

/-- Collecting that fails does so at one name, and the names before it give patches. -/
theorem exists_of_collect_eq_error {names : List String} {found : List Patch}
    (h : collect patchPrefix found names = .error e) :
    ∃ before name after patches, names = before ++ name :: after ∧
      collect patchPrefix found before = .ok patches ∧ add patchPrefix patches name = .error e := by
  induction names generalizing found with
  | nil => cases h
  | cons name names ih =>
    rw [collect_cons] at h
    cases hadd : add patchPrefix found name with
    | error e' =>
      rw [hadd] at h
      cases h
      exact ⟨[], name, names, found, rfl, rfl, hadd⟩
    | ok next =>
      rw [hadd] at h
      obtain ⟨before, last, after, patches, rfl, hbefore, hlast⟩ := ih h
      refine ⟨name :: before, last, after, patches, rfl, ?_, hlast⟩
      rw [collect_cons, hadd]
      exact hbefore

/-! ## Names in order -/

theorem pairwise_names (c : Catalog) : (c.toList.map (·.name)).Pairwise (· < ·) :=
  List.pairwise_map.2 c.pairwise_toList

/-- The names before one of the names of a catalog are those that come earlier. -/
theorem mem_before_iff {before after : List String}
    (h : c.toList.map (·.name) = before ++ (patchPrefix ++ rest) :: after) {other : String} :
    patchPrefix ++ other ∈ before ↔ Earlier c patchPrefix other rest := by
  have hsorted := pairwise_names c
  rw [h] at hsorted
  obtain ⟨-, hafter, hbefore⟩ := List.pairwise_append.1 hsorted
  have hmem : c.contains (patchPrefix ++ other) = true ↔
      patchPrefix ++ other ∈ before ++ (patchPrefix ++ rest) :: after := by
    rw [← h, Catalog.contains_iff, Catalog.mem_map_name_iff]
  constructor
  · intro hother
    exact ⟨hmem.2 (List.mem_append_left _ hother),
      Text.Utf8.encode_lt_encode (hbefore _ hother _ List.mem_cons_self)⟩
  · intro hother
    have hlt := Text.Utf8.encode_lt_encode_iff.1 hother.lt
    rcases List.mem_append.1 (hmem.1 hother.contains) with hbefore | hname
    · exact hbefore
    · rcases List.mem_cons.1 hname with heq | hlater
      · rw [heq] at hlt
        exact absurd hlt (String.lt_irrefl _)
      · have hgt := (List.pairwise_cons.1 hafter).1 _ hlater
        exact absurd (String.lt_trans hlt hgt) (String.lt_irrefl _)

theorem Earlier.trans {first second third : String} (h : Earlier c patchPrefix first second)
    (hnext : Earlier c patchPrefix second third) : Earlier c patchPrefix first third :=
  ⟨h.contains, List.lt_trans h.lt hnext.lt⟩

/-! ## The error of the first bad name -/

section

variable {before after : List String} {patches : List Patch}
variable (hnames : c.toList.map (·.name) = before ++ (patchPrefix ++ rest) :: after)
variable (hbefore : collect patchPrefix [] before = .ok patches)
include hnames hbefore

/-- The patches that have been collected are those of the earlier names. -/
theorem mem_collected_iff {p : Patch} : p ∈ patches ↔ ∃ other,
    Earlier c patchPrefix other rest ∧ readVersion other = some p.version ∧
      p.name = patchPrefix ++ other := by
  obtain ⟨-, rfl, -⟩ := (collect_eq_ok_iff .nil).1 hbefore
  rw [List.nil_append]
  simp only [List.mem_filterMap, ofName?_eq_some_iff, ← mem_before_iff hnames]
  constructor
  · rintro ⟨name, hname, other, rfl, hversion, hp⟩
    exact ⟨other, hname, hversion, hp⟩
  · rintro ⟨other, hother, hversion, hp⟩
    exact ⟨_, hother, other, rfl, hversion, hp⟩

/-- No two earlier names have the same version. -/
theorem earlier_eq_of_version_eq {first second : String} {version : Int64}
    (hfirst : Earlier c patchPrefix first rest) (hsecond : Earlier c patchPrefix second rest)
    (hversion : readVersion first = some version) (hsame : readVersion second = some version) :
    first = second := by
  obtain ⟨-, -, hdistinct⟩ := (collect_eq_ok_iff .nil).1 hbefore
  have hp : ⟨version, patchPrefix ++ first⟩ ∈ patches :=
    (mem_collected_iff hnames hbefore).2 ⟨first, hfirst, hversion, rfl⟩
  have hq : ⟨version, patchPrefix ++ second⟩ ∈ patches :=
    (mem_collected_iff hnames hbefore).2 ⟨second, hsecond, hsame, rfl⟩
  have hpatch := eq_of_version_eq hdistinct hp hq rfl
  exact (String.append_right_inj patchPrefix).1 (Patch.mk.inj hpatch).2

theorem not_isBad_of_earlier {other : String} (h : Earlier c patchPrefix other rest) :
    ¬ IsBad c patchPrefix other := by
  obtain ⟨hread, -, -⟩ := (collect_eq_ok_iff .nil).1 hbefore
  have hself : rest? patchPrefix (patchPrefix ++ other) = some other := rest?_eq_some_iff.2 rfl
  have hpatch := hread _ ((mem_before_iff hnames).2 h) (by simp [hself])
  have hsome : readVersion other ≠ none := by
    intro hnone
    simp [ofName?, hself, hnone] at hpatch
  rintro (hnone | ⟨third, hthird, hsame⟩)
  · exact hsome hnone
  · obtain ⟨version, hversion⟩ := Option.ne_none_iff_exists'.1 hsome
    have heq := earlier_eq_of_version_eq hnames hbefore (hthird.trans h) h
      (hsame.trans hversion) hversion
    rw [heq] at hthird
    exact List.lt_irrefl _ hthird.lt

/-- A name that cannot be added is bad, and the error says why. -/
theorem isBad_and_fault_of_add (hadd : add patchPrefix patches (patchPrefix ++ rest) = .error e) :
    IsBad c patchPrefix rest ∧ Fault c patchPrefix rest e := by
  obtain ⟨rest', hrest, hcase⟩ := add_eq_error_iff.1 hadd
  obtain rfl := (String.append_right_inj patchPrefix).1 hrest
  rcases hcase with ⟨hnone, rfl⟩ | ⟨version, patch, hversion, hfind, rfl⟩
  · exact ⟨.inl hnone, .invalidName hnone⟩
  · have htaken : patch.version = version := by simpa using List.find?_some hfind
    obtain ⟨first, hfirst, hread, hname⟩ :=
      (mem_collected_iff hnames hbefore).1 (List.mem_of_find?_eq_some hfind)
    rw [htaken] at hread
    rw [hname]
    refine ⟨.inr ⟨first, hfirst, hread.trans hversion.symm⟩, .duplicate hversion fun other => ?_⟩
    constructor
    · rintro ⟨hother, hsame⟩
      exact earlier_eq_of_version_eq hnames hbefore hother hfirst hsame hread
    · rintro rfl
      exact ⟨hfirst, hread⟩

end

/-- An error means that there are no names, or it is the fault of the first bad one. -/
theorem exists_of_discover_eq_error (h : discover c patchPrefix = .error e) :
    e = .noPatches patchPrefix ∧ (∀ rest, c.contains (patchPrefix ++ rest) = false) ∨
      ∃ rest, IsFirstBad c patchPrefix rest ∧ Fault c patchPrefix rest e := by
  unfold discover at h
  cases hcollect : collect patchPrefix [] (c.toList.map (·.name)) with
  | error e' =>
    rw [hcollect] at h
    cases h
    obtain ⟨before, name, after, patches, hnames, hbefore, hadd⟩ :=
      exists_of_collect_eq_error hcollect
    obtain ⟨rest, rfl, -⟩ := add_eq_error_iff.1 hadd
    obtain ⟨hbad, hfault⟩ := isBad_and_fault_of_add hnames hbefore hadd
    have hmem : patchPrefix ++ rest ∈ c.toList.map (·.name) := by
      rw [hnames]
      simp
    have hcontains := Catalog.contains_iff.2 (Catalog.mem_map_name_iff.1 hmem)
    exact .inr ⟨rest,
      ⟨hcontains, hbad, fun other hother => not_isBad_of_earlier hnames hbefore hother⟩, hfault⟩
  | ok found =>
    rw [hcollect] at h
    obtain ⟨hread, hfound, -⟩ := (collect_eq_ok_iff .nil).1 hcollect
    cases found with
    | cons p patches => cases h
    | nil =>
      cases h
      refine .inl ⟨rfl, fun rest => ?_⟩
      by_contra hcontains
      rw [Bool.not_eq_false] at hcontains
      obtain ⟨version, hversion⟩ :=
        Option.ne_none_iff_exists'.1 (readable_iff.1 hread rest hcontains)
      have hp : ⟨version, patchPrefix ++ rest⟩ ∈ named c patchPrefix :=
        mem_named_iff.2 ⟨rest, hcontains, hversion, rfl⟩
      have hnil : named c patchPrefix = [] := hfound.symm
      rw [hnil] at hp
      cases hp

/-- A bad name keeps patches from being found. -/
theorem not_discoverable_of_isBad (hcontains : c.contains (patchPrefix ++ rest) = true)
    (hbad : IsBad c patchPrefix rest) : ¬ Discoverable c patchPrefix := by
  intro h
  rcases hbad with hnone | ⟨other, hother, hsame⟩
  · exact h.readable rest hcontains hnone
  · obtain rfl := h.distinct other rest hother.contains hcontains hsame
    exact List.lt_irrefl _ hother.lt

/-- Patches are not found in a catalog for one of two reasons: no name begins with the prefix, or
some name that does is bad, that is, it has no version or the version of an earlier name. The error
is then that of the first bad name in the order of bytes, and it names the one earlier name that has
the version, if that is the reason. -/
theorem discover_eq_error_iff (c : Catalog) (patchPrefix : String) :
    (∀ e, discover c patchPrefix = .error e ↔
      e = .noPatches patchPrefix ∧ (∀ rest, c.contains (patchPrefix ++ rest) = false) ∨
        ∃ rest, IsFirstBad c patchPrefix rest ∧ Fault c patchPrefix rest e) ∧
      ((∃ other, discover c patchPrefix = .error (.noPatches other)) ↔
        ∀ rest, c.contains (patchPrefix ++ rest) = false) := by
  have herror (e : LoadError) : discover c patchPrefix = .error e ↔
      e = .noPatches patchPrefix ∧ (∀ rest, c.contains (patchPrefix ++ rest) = false) ∨
        ∃ rest, IsFirstBad c patchPrefix rest ∧ Fault c patchPrefix rest e := by
    refine ⟨exists_of_discover_eq_error, fun h => ?_⟩
    cases hdiscover : discover c patchPrefix with
    | ok patches =>
      have hdiscoverable := (discover_eq_ok_iff.1 hdiscover).1
      rcases h with ⟨-, hnone⟩ | ⟨rest, hbad, -⟩
      · obtain ⟨rest, hcontains⟩ := hdiscoverable.nonempty
        rw [hnone] at hcontains
        cases hcontains
      · exact absurd hdiscoverable (not_discoverable_of_isBad hbad.contains hbad.bad)
    | error e' =>
      -- both errors are that of the same name
      rcases exists_of_discover_eq_error hdiscover with ⟨rfl, hnone⟩ | ⟨rest', hbad', hfault'⟩
      · rcases h with ⟨rfl, -⟩ | ⟨rest, hbad, -⟩
        · rfl
        · exact absurd hbad.contains (by simp [hnone])
      · rcases h with ⟨rfl, hnone⟩ | ⟨rest, hbad, hfault⟩
        · exact absurd hbad'.contains (by simp [hnone])
        · obtain rfl := hbad.eq hbad'
          rw [hfault.eq hfault']
  refine ⟨herror, ?_, fun hnone => ⟨patchPrefix, (herror _).2 (.inl ⟨rfl, hnone⟩)⟩⟩
  rintro ⟨other, hother⟩
  rcases (herror _).1 hother with ⟨-, hnone⟩ | ⟨rest, -, hfault⟩
  · exact hnone
  · cases hfault

end QueryBook.Patch
