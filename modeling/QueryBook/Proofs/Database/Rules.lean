import QueryBook.Database.Client

/-!
# Rules that a database may play

A rule can make any statement fail. Two things are asked of the rules where it is said what happens
to a database: that a transaction can be taken back, and that the queries on the version table do
what their text says if they do not fail. Where it is said that they return something, or that a
command succeeds, they must not fail either. None of this is lost when rules are used up.
-/

namespace QueryBook

namespace Rule

/-- The rule does not make a `ROLLBACK` fail. -/
def AllowsRollback (r : Rule) : Prop :=
  r.sql = TransactionCommand.rollback.sql → r.passes = true ∨ r.failure = none

/-- The rule does not make the command fail. -/
def Allows (c : TransactionCommand) (r : Rule) : Prop :=
  r.sql = c.sql → r.passes = true ∨ r.failure = none

/-- The rule has no answer of its own to a query on the version table: it lets the query through or
makes it fail. -/
def SparesVersions (r : Rule) : Prop :=
  VersionQuery.ofText? r.sql ≠ none →
    r.passes = true ∨ r.prepareFailure ≠ none ∨ r.failure ≠ none

/-- The rule lets queries on the version table through. -/
def PassesVersions (r : Rule) : Prop :=
  VersionQuery.ofText? r.sql ≠ none → r.passes = true

instance (r : Rule) : Decidable r.AllowsRollback :=
  inferInstanceAs (Decidable (_ → _))

instance (c : TransactionCommand) (r : Rule) : Decidable (r.Allows c) :=
  inferInstanceAs (Decidable (_ → _))

instance (r : Rule) : Decidable r.SparesVersions :=
  inferInstanceAs (Decidable (_ → _))

instance (r : Rule) : Decidable r.PassesVersions :=
  inferInstanceAs (Decidable (_ → _))

/-- A rule that is found is one of the rules, has the text of the statement and does not let it
through. -/
theorem of_use_eq_some {sql : String} {rules : List Rule} {r : Rule}
    (h : (use sql rules).1 = some r) : r ∈ rules ∧ r.sql = sql ∧ r.passes = false := by
  induction rules with
  | nil => simp [use] at h
  | cons rule rest ih =>
    simp only [use] at h
    split at h
    · rename_i hfit
      split at h
      · cases h
      · rename_i hpass
        cases h
        simp only [Bool.and_eq_true, beq_iff_eq] at hfit
        exact ⟨List.mem_cons_self, hfit.1, by simpa using hpass⟩
    · obtain ⟨hmem, hrest⟩ := ih h
      exact ⟨List.mem_cons_of_mem _ hmem, hrest⟩

/-- What does not depend on how often rules can still be used is kept by using them. -/
theorem forall_mem_use {P : Rule → Prop} (hP : ∀ r uses, P r → P { r with uses := uses })
    (sql : String) {rules : List Rule} (h : ∀ r ∈ rules, P r) : ∀ r ∈ (use sql rules).2, P r := by
  induction rules with
  | nil => simp [use]
  | cons rule rest ih =>
    have hrule : P rule := h rule List.mem_cons_self
    have hrest : ∀ r ∈ rest, P r := fun r hr => h r (List.mem_cons_of_mem _ hr)
    simp only [use]
    split
    · exact List.forall_mem_cons.2 ⟨hP rule _ hrule, hrest⟩
    · exact List.forall_mem_cons.2 ⟨hrule, ih hrest⟩

end Rule

namespace Database

/-- Taking a transaction back always works. -/
def CanRollBack (db : Database) : Prop :=
  ∀ r ∈ db.rules, r.AllowsRollback

/-- No rule makes the command fail. -/
def Allows (c : TransactionCommand) (db : Database) : Prop :=
  ∀ r ∈ db.rules, r.Allows c

/-- The queries on the version table do what their text says or fail. -/
def SparesVersions (db : Database) : Prop :=
  ∀ r ∈ db.rules, r.SparesVersions

/-- The queries on the version table do what their text says. -/
def AnswersVersions (db : Database) : Prop :=
  ∀ r ∈ db.rules, r.PassesVersions

instance (db : Database) : Decidable db.CanRollBack :=
  inferInstanceAs (Decidable (∀ r ∈ db.rules, _))

instance (c : TransactionCommand) (db : Database) : Decidable (db.Allows c) :=
  inferInstanceAs (Decidable (∀ r ∈ db.rules, _))

instance (db : Database) : Decidable db.SparesVersions :=
  inferInstanceAs (Decidable (∀ r ∈ db.rules, _))

instance (db : Database) : Decidable db.AnswersVersions :=
  inferInstanceAs (Decidable (∀ r ∈ db.rules, _))

theorem CanRollBack.use {db : Database} (h : db.CanRollBack) (sql : String) :
    ∀ r ∈ (Rule.use sql db.rules).2, r.AllowsRollback :=
  Rule.forall_mem_use (fun _ _ hr => hr) sql h

theorem SparesVersions.use {db : Database} (h : db.SparesVersions) (sql : String) :
    ∀ r ∈ (Rule.use sql db.rules).2, r.SparesVersions :=
  Rule.forall_mem_use (fun _ _ hr => hr) sql h

theorem AnswersVersions.sparesVersions {db : Database} (h : db.AnswersVersions) :
    db.SparesVersions :=
  fun r hr hsql => .inl (h r hr hsql)

/-- No rule answers a query on the version table. -/
theorem AnswersVersions.use_eq_none {db : Database} (h : db.AnswersVersions) {sql : String}
    (hsql : VersionQuery.ofText? sql ≠ none) : (Rule.use sql db.rules).1 = none := by
  cases hrule : (Rule.use sql db.rules).1 with
  | none => rfl
  | some r =>
    obtain ⟨hmem, rfl, hpass⟩ := Rule.of_use_eq_some hrule
    rw [h r hmem hsql] at hpass
    cases hpass

/-- No rule that answers makes the command fail. -/
theorem Allows.failure_use {db : Database} {c : TransactionCommand} (h : db.Allows c) :
    (Rule.use c.sql db.rules).1.bind (·.failure) = none := by
  cases hrule : (Rule.use c.sql db.rules).1 with
  | none => rfl
  | some r =>
    obtain ⟨hmem, hsql, hpass⟩ := Rule.of_use_eq_some hrule
    have hfree := h r hmem hsql
    simpa [hpass] using hfree

theorem CanRollBack.allows {db : Database} (h : db.CanRollBack) : db.Allows .rollback :=
  h

/-- A rule that answers a query on the version table makes it fail. -/
theorem SparesVersions.failure_of_use {db : Database} (h : db.SparesVersions) {sql : String}
    {r : Rule} (hsql : VersionQuery.ofText? sql ≠ none)
    (hrule : (Rule.use sql db.rules).1 = some r) :
    r.prepareFailure ≠ none ∨ r.failure ≠ none := by
  obtain ⟨hmem, rfl, hpass⟩ := Rule.of_use_eq_some hrule
  have hspares := h r hmem hsql
  simpa [hpass] using hspares

end Database

end QueryBook
