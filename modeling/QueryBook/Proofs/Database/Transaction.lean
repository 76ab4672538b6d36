import QueryBook.Proofs.Database.Submit

/-!
# Opening and ending a transaction

What each command on a transaction leaves behind. A transaction that is taken back, or whose commit
fails, leaves the contents as they were when it was opened.
-/

namespace QueryBook.Database

variable {db after : Database}

/-- What does not depend on how often rules can still be used is kept by a command. -/
theorem forall_rules_command {P : Rule → Prop} (hP : ∀ r uses, P r → P { r with uses := uses })
    (h : ∀ r ∈ db.rules, P r) (c : TransactionCommand) : ∀ r ∈ (db.command c).2.rules, P r := by
  have hused := Rule.forall_mem_use hP c.sql h
  unfold Database.command
  generalize Rule.use c.sql db.rules = used at hused ⊢
  obtain ⟨rule, rules⟩ := used
  dsimp only at hused ⊢
  split <;> exact hused

theorem AnswersVersions.command (h : db.AnswersVersions) (c : TransactionCommand) :
    AnswersVersions (db.command c).2 :=
  forall_rules_command (fun _ _ hr => hr) h c

/-- `after` is `before` in a transaction that has just been opened. -/
structure Opens (before after : Database) : Prop where
  contents : after.contents = before.contents
  snapshot : after.snapshot = some before.contents
  now : after.now = before.now
  log : after.log = before.log ++ [.command .start]
  canRollBack : before.CanRollBack → after.CanRollBack
  sparesVersions : before.SparesVersions → after.SparesVersions

theorem opens_of_beginTransaction (h : db.beginTransaction = (.ok (), after)) : Opens db after := by
  have hback : db.CanRollBack → _ := fun h => h.use TransactionCommand.start.sql
  have hspares : db.SparesVersions → _ := fun h => h.use TransactionCommand.start.sql
  unfold beginTransaction command at h
  generalize Rule.use TransactionCommand.start.sql db.rules = used at h hback hspares
  obtain ⟨rule, rules⟩ := used
  dsimp only at h
  generalize rule.bind (·.failure) = failure at h
  cases failure with
  | none =>
    cases h
    exact ⟨rfl, rfl, rfl, rfl, hback, hspares⟩
  | some e => cases h

/-- Taking a transaction back restores the contents that it kept. -/
theorem abandon_eq (h : db.CanRollBack) :
    db.abandon = { db with
      contents := db.snapshot.getD db.contents
      snapshot := none
      rules := (Rule.use TransactionCommand.rollback.sql db.rules).2
      log := db.log ++ [.command .rollback] } := by
  have hfailure := h.allows.failure_use
  unfold abandon command
  generalize Rule.use TransactionCommand.rollback.sql db.rules = used at hfailure ⊢
  obtain ⟨rule, rules⟩ := used
  dsimp only at hfailure ⊢
  rw [hfailure]
  rfl

/-- A transaction that does not open has changed nothing. -/
theorem beginTransaction_eq_error (hopen : db.snapshot = none) (hback : db.CanRollBack) {e : Error}
    (h : db.beginTransaction = (.error e, after)) :
    after.contents = db.contents ∧ after.snapshot = none ∧
      after.log = db.log ++ [.command .start, .command .rollback] := by
  have hused : ∀ r ∈ (Rule.use TransactionCommand.start.sql db.rules).2, r.AllowsRollback :=
    hback.use _
  unfold beginTransaction command at h
  generalize Rule.use TransactionCommand.start.sql db.rules = used at hused h
  obtain ⟨rule, rules⟩ := used
  dsimp only at h hused
  generalize rule.bind (·.failure) = failure at h
  cases failure with
  | none => cases h
  | some cause =>
    have hnext : CanRollBack { db.record (.command .start) with rules := rules } := hused
    dsimp only at h
    rw [abandon_eq hnext] at h
    cases h
    simp [record, hopen]

theorem Allows.command_eq_ok {c : TransactionCommand} (h : db.Allows c) :
    ∃ after, db.command c = (.ok (), after) := by
  have hfailure := h.failure_use
  unfold Database.command
  generalize Rule.use c.sql db.rules = used at hfailure ⊢
  obtain ⟨rule, rules⟩ := used
  dsimp only at hfailure ⊢
  rw [hfailure]
  cases c <;> exact ⟨_, rfl⟩

theorem Allows.commit_eq_ok (h : db.Allows .commit) : ∃ after, db.commit = (.ok (), after) := by
  obtain ⟨after, hafter⟩ := h.command_eq_ok
  unfold Database.commit
  rw [hafter]
  exact ⟨after, rfl⟩

/-- A commit keeps what was done. -/
theorem commit_eq_ok (h : db.commit = (.ok (), after)) :
    after.contents = db.contents ∧ after.snapshot = none ∧
      after.log = db.log ++ [.command .commit] := by
  unfold commit command at h
  generalize Rule.use TransactionCommand.commit.sql db.rules = used at h
  obtain ⟨rule, rules⟩ := used
  dsimp only at h
  generalize rule.bind (·.failure) = failure at h
  cases failure with
  | none =>
    cases h
    exact ⟨rfl, rfl, rfl⟩
  | some e => cases h

/-- A commit that fails takes the transaction back. -/
theorem commit_eq_error {e : Error} (h : db.commit = (.error e, after)) :
    (∃ cause, e = .transaction .commit cause) ∧
      after.contents = db.snapshot.getD db.contents ∧ after.snapshot = none := by
  unfold commit command at h
  generalize Rule.use TransactionCommand.commit.sql db.rules = used at h
  obtain ⟨rule, rules⟩ := used
  dsimp only at h
  generalize rule.bind (·.failure) = failure at h
  cases failure with
  | none => cases h
  | some cause =>
    cases h
    exact ⟨⟨_, rfl⟩, rfl, rfl⟩

end QueryBook.Database
