import QueryBook.Arguments
import QueryBook.Proofs.NameMap

/-!
# Arguments as they are made, and the choice among them

However arguments are made, a name has the value that was last given for it (`get?_arguments`). The
choice of values for parameters gives each of them its value (`map_get?_of_select`), or else says
which is the first that has none (`exists_of_select_eq_error`).
-/

namespace QueryBook.Arguments

/-- How arguments are made: from entries, and by inserting more values one after another. -/
inductive Making where
  | entries (list : List (String × Value))
  | insert (before : Making) (name : String) (value : Value)

namespace Making

def arguments : Making → Arguments
  | entries list => NameMap.ofList list
  | insert before name value => before.arguments.insert name value

/-- All values that are given, in the order in which they are given. -/
def given : Making → List (String × Value)
  | entries list => list
  | insert before name value => before.given ++ [(name, value)]

/-- The value that is last given for a name. -/
def last? (m : Making) (name : String) : Option Value :=
  m.given.reverse.lookup name

theorem get?_arguments (m : Making) (name : String) : m.arguments.get? name = m.last? name := by
  induction m with
  | entries list => exact NameMap.get?_ofList list name
  | insert before other value ih =>
    unfold last? at ih ⊢
    rw [arguments, given, NameMap.get?_insert, ih, List.reverse_append]
    by_cases h : name = other
    · simp [h]
    · simp [List.lookup_cons, h, beq_eq_false_iff_ne.2 h]

end Making

variable {args : Arguments} {params : List String}

/-- A choice that succeeds has one value for each parameter. -/
theorem map_get?_of_select {values : List Value} (h : args.select params = .ok values) :
    params.map args.get? = values.map some := by
  induction params generalizing values with
  | nil =>
    cases h
    rfl
  | cons param rest ih =>
    unfold select at h
    split at h
    · cases h
    · rename_i value hvalue
      split at h
      · cases h
      · rename_i more hmore
        cases h
        rw [List.map_cons, List.map_cons, hvalue, ih hmore]

/-- A choice that fails names the first parameter that has no value. -/
theorem exists_of_select_eq_error {missing : String} (h : args.select params = .error missing) :
    ∃ before after, params = before ++ missing :: after ∧
      (∀ param ∈ before, args.get? param ≠ none) ∧ args.get? missing = none := by
  induction params with
  | nil => cases h
  | cons param rest ih =>
    unfold select at h
    split at h
    · rename_i hnone
      cases h
      exact ⟨[], rest, rfl, by simp, hnone⟩
    · rename_i value hvalue
      split at h
      · rename_i hrest
        cases h
        obtain ⟨before, after, rfl, hbefore, hnone⟩ := ih hrest
        refine ⟨param :: before, after, rfl, List.forall_mem_cons.2 ⟨?_, hbefore⟩, hnone⟩
        simp [hvalue]
      · cases h

/-- The choice looks at nothing but the values of the parameters. -/
theorem select_congr {other : Arguments}
    (h : ∀ param ∈ params, other.get? param = args.get? param) :
    other.select params = args.select params := by
  induction params with
  | nil => rfl
  | cons param rest ih =>
    obtain ⟨hparam, hrest⟩ := List.forall_mem_cons.1 h
    unfold select
    rw [hparam, ih hrest]

end QueryBook.Arguments

namespace QueryBook.Query

variable {q : Query} {args : Arguments}

theorem bind_eq_ok_iff {values : List Value} :
    q.bind args = .ok values ↔ args.select q.params = .ok values := by
  unfold bind
  cases args.select q.params with
  | error missing => exact ⟨nofun, nofun⟩
  | ok found =>
    constructor
    · intro h
      cases h
      rfl
    · intro h
      cases h
      rfl

/-- Nothing has to be given for a query without parameters. -/
theorem bind_empty (h : q.params = []) : q.bind ∅ = .ok [] := by
  rw [bind_eq_ok_iff, h]
  rfl

theorem bind_eq_error {e : MissingArgument} (h : q.bind args = .error e) :
    e.query = q.name ∧ args.select q.params = .error e.param := by
  unfold bind at h
  cases hselect : args.select q.params with
  | error missing =>
    rw [hselect] at h
    cases h
    exact ⟨rfl, rfl⟩
  | ok values =>
    rw [hselect] at h
    cases h

end QueryBook.Query
