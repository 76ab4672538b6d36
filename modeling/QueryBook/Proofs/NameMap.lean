import QueryBook.NameMap

/-!
# Looking up in maps from names

Looking up a name finds what stands under it (`get?_eq_some_iff`). Inserting entries one after
another gives each name the value that it was given last.
-/

namespace QueryBook.NameMap

variable {α : Type}

/-- A value that is looked up stands in the map under its name. -/
theorem mem_entries_of_get? {m : NameMap α} {name : String} {value : α}
    (h : m.get? name = some value) : (name, value) ∈ m.entries := by
  obtain ⟨before, after, hentries, -⟩ := List.lookup_eq_some_iff.1 h
  rw [hentries]
  simp

/-- No name stands in the map twice, so that what stands under a name is its value. -/
theorem get?_eq_some_iff {m : NameMap α} {name : String} {value : α} :
    m.get? name = some value ↔ (name, value) ∈ m.entries := by
  refine ⟨mem_entries_of_get?, fun h => ?_⟩
  obtain ⟨before, after, hentries⟩ := List.append_of_mem h
  refine List.lookup_eq_some_iff.2 ⟨before, after, hentries, fun e he => ?_⟩
  have hsorted := m.sorted
  rw [hentries] at hsorted
  have hlt : e.1 < name := (List.pairwise_append.1 hsorted).2.2 e he _ List.mem_cons_self
  have hne : name ≠ e.1 := fun heq => String.lt_irrefl name (heq ▸ hlt)
  simpa using hne

@[simp] theorem get?_empty (name : String) : (∅ : NameMap α).get? name = none := rfl

/-- The last entry with a name decides; without one the map keeps what it had. -/
theorem get?_insertAll (m : NameMap α) (entries : List (String × α)) (name : String) :
    (m.insertAll entries).get? name = (entries.reverse.lookup name).or (m.get? name) := by
  induction entries generalizing m with
  | nil => rfl
  | cons entry rest ih =>
    obtain ⟨other, value⟩ := entry
    show ((m.insert other value).insertAll rest).get? name = _
    rw [ih, get?_insert, List.reverse_cons, List.lookup_append, Option.or_assoc]
    by_cases h : name = other
    · simp [h]
    · simp [List.lookup_cons, h, beq_eq_false_iff_ne.2 h]

theorem get?_ofList (entries : List (String × α)) (name : String) :
    (ofList entries).get? name = entries.reverse.lookup name := by
  rw [ofList, get?_insertAll, get?_empty, Option.or_none]

end QueryBook.NameMap
