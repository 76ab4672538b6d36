import QueryBook.Execute
import QueryBook.Proofs.NameMap

/-!
# Looking up in a catalog

After queries have been added one after another, a name stands for the last of them that has it
(`get?_insertAll_eq_some_iff`). The queries of a catalog are listed in the order of their names.
-/

namespace QueryBook

/-- The query is in the list and no query after it has its name. -/
def Query.LastIn (q : Query) (definitions : List Query) : Prop :=
  ∃ before after, definitions = before ++ q :: after ∧ ∀ r ∈ after, r.name ≠ q.name

theorem Query.lastIn_cons {q r : Query} {rest : List Query} :
    q.LastIn (r :: rest) ↔ q.LastIn rest ∨ q = r ∧ ∀ s ∈ rest, s.name ≠ q.name := by
  constructor
  · rintro ⟨before, after, hlist, hafter⟩
    cases before with
    | nil =>
      obtain ⟨rfl, rfl⟩ := List.cons.inj hlist
      exact .inr ⟨rfl, hafter⟩
    | cons first before =>
      obtain ⟨rfl, rfl⟩ := List.cons.inj hlist
      exact .inl ⟨before, after, rfl, hafter⟩
  · rintro (⟨before, after, rfl, hafter⟩ | ⟨rfl, hrest⟩)
    · exact ⟨r :: before, after, rfl, hafter⟩
    · exact ⟨[], rest, rfl, hrest⟩

namespace Source

/-- Whether reading a source has given just these queries. -/
def gives (queries : List Query) : Except LoadError (List Query) → Bool
  | .ok found => found == queries
  | .error _ => false

theorem eq_ok_of_gives {queries : List Query} {result : Except LoadError (List Query)}
    (h : gives queries result = true) : result = .ok queries := by
  cases result with
  | error e => cases h
  | ok found =>
    have hfound : found = queries := by simpa [gives] using h
    rw [hfound]

end Source

namespace Catalog

variable {c : Catalog} {name : String} {q : Query}

theorem name_of_get? (h : c.get? name = some q) : q.name = name :=
  (c.named _ (NameMap.mem_entries_of_get? h)).symm

theorem mem_toList_of_get? (h : c.get? name = some q) : q ∈ c.toList :=
  List.mem_map.2 ⟨_, NameMap.mem_entries_of_get? h, rfl⟩

theorem get?_insert (c : Catalog) (q : Query) (name : String) :
    (c.insert q).get? name = if name = q.name then some q else c.get? name :=
  NameMap.get?_insert c.queries q.name name q

/-- The last query with a name decides; without one the catalog keeps what it had. -/
theorem get?_insertAll_eq_some_iff {definitions : List Query} :
    (c.insertAll definitions).get? name = some q ↔
      q.name = name ∧ q.LastIn definitions ∨
        c.get? name = some q ∧ ∀ r ∈ definitions, r.name ≠ name := by
  induction definitions generalizing c with
  | nil => simp [insertAll, Query.LastIn]
  | cons r rest ih =>
    show ((c.insert r).insertAll rest).get? name = some q ↔ _
    rw [ih, get?_insert, Query.lastIn_cons]
    by_cases hname : name = r.name
    · subst hname
      grind
    · grind

/-- Queries whose names are distinct are all found. -/
theorem get?_insertAll_of_mem {definitions : List Query}
    (h : definitions.Pairwise fun a b => a.name ≠ b.name) (hq : q ∈ definitions) :
    (c.insertAll definitions).get? q.name = some q := by
  obtain ⟨before, after, rfl⟩ := List.append_of_mem hq
  have hafter := (List.pairwise_cons.1 (List.pairwise_append.1 h).2.1).1
  exact get?_insertAll_eq_some_iff.2
    (.inl ⟨rfl, before, after, rfl, fun r hr => (hafter r hr).symm⟩)

theorem insertAll_append (c : Catalog) (first second : List Query) :
    c.insertAll (first ++ second) = (c.insertAll first).insertAll second :=
  List.foldl_append

/-- Loading a single source adds its queries. -/
theorem load_singleton (c : Catalog) {source : Source} {queries : List Query}
    (h : source.queries = .ok queries) : c.load [source] = .ok (c.insertAll queries) := by
  unfold load readAll
  rw [h]
  simp [readAll, Except.map]

/-! ## Listing -/

theorem names_eq (c : Catalog) : c.queries.names = c.toList.map (·.name) := by
  unfold NameMap.names toList NameMap.values
  rw [List.map_map]
  exact List.map_congr_left fun e he => c.named e he

theorem pairwise_toList (c : Catalog) : c.toList.Pairwise fun a b => a.name < b.name := by
  have hnames : c.queries.names.Pairwise (· < ·) := List.pairwise_map.2 c.queries.sorted
  rw [names_eq] at hnames
  exact List.pairwise_map.1 hnames

/-- What is listed is what is found under its name. -/
theorem mem_toList_iff : q ∈ c.toList ↔ c.get? q.name = some q := by
  refine ⟨fun h => ?_, mem_toList_of_get?⟩
  obtain ⟨⟨key, found⟩, he, rfl⟩ := List.mem_map.1 h
  have hkey : key = found.name := c.named _ he
  subst hkey
  exact NameMap.get?_eq_some_iff.2 he

theorem mem_map_name_iff : name ∈ c.toList.map (·.name) ↔ ∃ q, c.get? name = some q := by
  rw [List.mem_map]
  constructor
  · rintro ⟨q, hq, rfl⟩
    exact ⟨q, mem_toList_iff.1 hq⟩
  · rintro ⟨q, hq⟩
    exact ⟨q, mem_toList_of_get? hq, name_of_get? hq⟩

theorem lookup_eq_ok_iff : c.lookup name = .ok q ↔ c.get? name = some q := by
  unfold lookup
  cases c.get? name <;> simp

theorem contains_iff : c.contains name = true ↔ ∃ q, c.get? name = some q :=
  Option.isSome_iff_exists

end Catalog

end QueryBook
