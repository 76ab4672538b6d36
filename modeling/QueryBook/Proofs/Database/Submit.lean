import QueryBook.Execute
import QueryBook.Proofs.Database.Rules

/-!
# What a statement does to a database

Whatever a statement ends in, it leaves the transaction and the clock as they are and adds nothing
but statements to the log (`sends_submit`). A query on the version table that succeeds has done what
its text says (`submit_version`), and it does succeed where no rule answers it
(`submit_of_answers`); any other statement that succeeds has left its effect (`submit_other`).
-/

namespace QueryBook

/-- The server knows the queries on the version table by their texts. -/
theorem VersionQuery.ofText?_query (q : VersionQuery) : ofText? q.query.body = some q := by
  cases q <;> decide +kernel

namespace Database

/-! ## What no statement changes -/

/-- `after` comes from `before` by sending statements and no command. -/
structure Sends (before after : Database) : Prop where
  snapshot : after.snapshot = before.snapshot
  now : after.now = before.now
  log : ∃ sent : List (String × Option (List Cell)),
    after.log = before.log ++ sent.map fun e => .statement e.1 e.2
  canRollBack : before.CanRollBack → after.CanRollBack
  sparesVersions : before.SparesVersions → after.SparesVersions

theorem Sends.refl (db : Database) : Sends db db where
  snapshot := rfl
  now := rfl
  log := ⟨[], by simp⟩
  canRollBack := id
  sparesVersions := id

theorem Sends.trans {a b c : Database} (hab : Sends a b) (hbc : Sends b c) : Sends a c where
  snapshot := hbc.snapshot.trans hab.snapshot
  now := hbc.now.trans hab.now
  log := by
    obtain ⟨first, hfirst⟩ := hab.log
    obtain ⟨second, hsecond⟩ := hbc.log
    exact ⟨first ++ second, by simp [hsecond, hfirst]⟩
  canRollBack := hbc.canRollBack ∘ hab.canRollBack
  sparesVersions := hbc.sparesVersions ∘ hab.sparesVersions

/-- A statement uses a rule, adds itself to the log and may change the contents. -/
theorem Sends.of_eq (db : Database) (sql : String) (params : Option (List Cell))
    (contents : Contents) :
    Sends db { db with
      rules := (Rule.use sql db.rules).2
      log := db.log ++ [.statement sql params]
      contents := contents } where
  snapshot := rfl
  now := rfl
  log := ⟨[(sql, params)], rfl⟩
  canRollBack h := h.use sql
  sparesVersions h := h.use sql

/-- Preparing a statement changes nothing but the rules. -/
theorem prepare_snd (db : Database) (sql : String) :
    (db.prepare sql).2 = { db with rules := (Rule.use sql db.rules).2 } := by
  unfold prepare
  obtain ⟨rule, rules⟩ := Rule.use sql db.rules
  cases rule with
  | none =>
    dsimp only
    split
    · split <;> rfl
    · rfl
  | some r =>
    dsimp only
    split <;> rfl

/-- Running a statement changes nothing but the contents. -/
theorem run_snd (db : Database) (p : Prepared) (params : List Cell) :
    ∃ contents, (db.run p params).2 = { db with contents := contents } := by
  unfold run
  cases p.plan with
  | rule r =>
    dsimp only
    split
    · exact ⟨db.contents, rfl⟩
    · exact ⟨_, rfl⟩
  | version q =>
    dsimp only
    split
    · exact ⟨db.contents, rfl⟩
    · exact ⟨_, rfl⟩
  | nothing => exact ⟨_, rfl⟩

/-- A statement is not sent at all, or it uses a rule, adds itself to the log and may change the
contents. -/
theorem submit_snd (db : Database) (sql : String) (values : List Value) :
    (db.submit sql values).2 = db ∨ ∃ params contents, (db.submit sql values).2 = { db with
      rules := (Rule.use sql db.rules).2
      log := db.log ++ [.statement sql params]
      contents := contents } := by
  have hprep := db.prepare_snd sql
  unfold submit
  split
  · exact .inl rfl
  generalize db.prepare sql = prepared at hprep ⊢
  obtain ⟨result, next⟩ := prepared
  simp only at hprep
  subst hprep
  cases result with
  | error e => exact .inr ⟨none, db.contents, rfl⟩
  | ok prepared =>
    dsimp only
    split
    · exact .inr ⟨none, db.contents, rfl⟩
    · rename_i cells _
      obtain ⟨contents, hrun⟩ := run_snd
        (record { db with rules := (Rule.use sql db.rules).2 } (.statement sql (some cells)))
        prepared cells
      rw [hrun]
      exact .inr ⟨some cells, contents, rfl⟩

theorem sends_submit (db : Database) (sql : String) (values : List Value) :
    Sends db (db.submit sql values).2 := by
  rcases db.submit_snd sql values with hnext | ⟨params, contents, hnext⟩
  · rw [hnext]
    exact Sends.refl db
  · rw [hnext]
    exact Sends.of_eq db sql params contents

/-- What does not depend on how often rules can still be used is kept by a statement. -/
theorem forall_rules_submit {P : Rule → Prop} (hP : ∀ r uses, P r → P { r with uses := uses })
    {db : Database} (h : ∀ r ∈ db.rules, P r) (sql : String) (values : List Value) :
    ∀ r ∈ (db.submit sql values).2.rules, P r := by
  rcases db.submit_snd sql values with hnext | ⟨params, contents, hnext⟩
  · rwa [hnext]
  · rw [hnext]
    exact Rule.forall_mem_use hP sql h

theorem AnswersVersions.submit {db : Database} (h : db.AnswersVersions) (sql : String)
    (values : List Value) : AnswersVersions (db.submit sql values).2 :=
  forall_rules_submit (fun _ _ hr => hr) h sql values

/-! ## What a statement that succeeds has done -/

variable {db after : Database} {values : List Value} {reply : Reply}

/-- A statement succeeds in three steps: it is prepared, the values are encoded, and it is run. -/
theorem submit_eq_ok {sql : String} (h : db.submit sql values = (.ok reply, after)) :
    ∃ prepared cells, (db.prepare sql).1 = .ok prepared ∧
      encodeParams prepared.params values = .ok cells ∧
      run { db with
        rules := (Rule.use sql db.rules).2
        log := db.log ++ [.statement sql (some cells)] } prepared cells = (.ok reply, after) := by
  have hprep := db.prepare_snd sql
  unfold submit at h
  split at h
  · cases h
  generalize db.prepare sql = prepared at hprep h ⊢
  obtain ⟨result, next⟩ := prepared
  simp only at hprep
  subst hprep
  cases result with
  | error e => cases h
  | ok prepared =>
    dsimp only at h
    split at h
    · cases h
    · rename_i cells hcells
      refine ⟨prepared, cells, rfl, hcells, ?_⟩
      generalize hrun : run _ prepared cells = outcome at h
      obtain ⟨result, final⟩ := outcome
      cases result with
      | error e => cases h
      | ok r =>
        cases h
        exact hrun

/-- Without a rule that answers it, a query on the version table is run as such. -/
theorem prepare_version (q : VersionQuery) {prepared : Prepared}
    (hrule : (Rule.use q.query.body db.rules).1 = none)
    (h : (db.prepare q.query.body).1 = .ok prepared) :
    prepared = ⟨q.query.body, q.paramTypes, q.columns, .version q⟩ := by
  unfold prepare at h
  generalize Rule.use q.query.body db.rules = used at hrule h
  obtain ⟨rule, rules⟩ := used
  simp only at hrule
  subst hrule
  simp only [VersionQuery.ofText?_query] at h
  split at h
  · cases h
  · cases h
    rfl

/-- A rule that answers a statement has it prepared as it says. -/
theorem prepare_rule {sql : String} {r : Rule} {prepared : Prepared}
    (hrule : (Rule.use sql db.rules).1 = some r) (h : (db.prepare sql).1 = .ok prepared) :
    r.prepareFailure = none ∧ prepared = ⟨sql, r.params, r.columns, .rule r⟩ := by
  unfold prepare at h
  generalize Rule.use sql db.rules = used at hrule h
  obtain ⟨rule, rules⟩ := used
  simp only at hrule
  subst hrule
  simp only at h
  split at h
  · cases h
  · rename_i hnone
    cases h
    exact ⟨hnone, rfl⟩

/-- A query on the version table that succeeds has done what its text says. -/
theorem submit_version (hspares : db.SparesVersions) {q : VersionQuery}
    (h : db.submit q.query.body values = (.ok reply, after)) :
    ∃ cells contents, encodeParams q.paramTypes values = .ok cells ∧
      db.contents.runVersion db.now q cells = .ok (reply, contents) ∧
      after = { db with
        rules := (Rule.use q.query.body db.rules).2
        log := db.log ++ [.statement q.query.body (some cells)]
        contents := contents } := by
  obtain ⟨prepared, cells, hprep, hcells, hrun⟩ := submit_eq_ok h
  cases hrule : (Rule.use q.query.body db.rules).1 with
  | none =>
    obtain rfl := prepare_version q hrule hprep
    simp only [run] at hrun
    split at hrun
    · cases hrun
    · rename_i contents hcontents
      cases hrun
      exact ⟨cells, contents, hcells, hcontents, rfl⟩
  | some r =>
    -- the rule must make the query fail, in one of its two ways
    have hfails := hspares.failure_of_use (by simp [VersionQuery.ofText?_query]) hrule
    obtain ⟨hnone, rfl⟩ := prepare_rule hrule hprep
    simp only [run] at hrun
    split at hrun
    · cases hrun
    · rename_i hok
      exact absurd hfails (by simp [hnone, hok])

/-- Where no rule answers it, a query on the version table does what its text says. -/
theorem submit_of_answers (hanswers : db.AnswersVersions) {q : VersionQuery}
    (hsend : q.query.body.toList.contains nul = false)
    (htable : q.needsTable = true → db.contents.hasTable = true) {cells : List Cell}
    (hcells : encodeParams q.paramTypes values = .ok cells) {contents : Contents}
    (hrun : db.contents.runVersion db.now q cells = .ok (reply, contents)) :
    ∃ after, db.submit q.query.body values = (.ok reply, after) ∧ after.contents = contents := by
  have hneeds : (q.needsTable && !db.contents.hasTable) = false := by
    cases hq : q.needsTable with
    | false => rfl
    | true => rw [htable hq, Bool.not_true, Bool.and_false]
  have hsql : VersionQuery.ofText? q.query.body ≠ none := by simp [VersionQuery.ofText?_query]
  have hrule := hanswers.use_eq_none hsql
  unfold submit prepare
  generalize Rule.use q.query.body db.rules = used at hrule ⊢
  obtain ⟨rule, rules⟩ := used
  simp only at hrule
  subst hrule
  simp only [hsend, hneeds, hcells, hrun, VersionQuery.ofText?_query, run, record,
    Bool.false_eq_true, if_false]
  exact ⟨_, rfl, rfl⟩

/-- Any other statement that succeeds has left its effect. -/
theorem submit_other {sql : String} (hother : VersionQuery.ofText? sql = none)
    (h : db.submit sql values = (.ok reply, after)) :
    ∃ types cells, encodeParams types values = .ok cells ∧
      after = { db with
        rules := (Rule.use sql db.rules).2
        log := db.log ++ [.statement sql (some cells)]
        contents := db.contents.addEffect sql cells } := by
  obtain ⟨prepared, cells, hprep, hcells, hrun⟩ := submit_eq_ok h
  cases hrule : (Rule.use sql db.rules).1 with
  | none =>
    unfold prepare at hprep
    generalize Rule.use sql db.rules = used at hrule hprep hrun ⊢
    obtain ⟨rule, rules⟩ := used
    simp only at hrule
    subst hrule
    simp only [hother] at hprep
    cases hprep
    simp only [run] at hrun
    cases hrun
    exact ⟨[], cells, hcells, rfl⟩
  | some r =>
    obtain ⟨-, rfl⟩ := prepare_rule hrule hprep
    simp only [run] at hrun
    split at hrun
    · cases hrun
    · cases hrun
      exact ⟨r.params, cells, hcells, rfl⟩

end Database

/-! ## Queries that succeed -/

namespace Query

variable {q : Query} {args : Arguments} {db after : Database}

/-- A query that succeeds was bound and its statement has succeeded. -/
theorem submit_eq_ok {reply : Reply} (h : q.submit args db = (.ok reply, after)) :
    ∃ values, q.bind args = .ok values ∧ db.submit q.body values = (.ok reply, after) := by
  unfold submit at h
  split at h
  · cases h
  · rename_i values hbind
    refine ⟨values, hbind, ?_⟩
    generalize db.submit q.body values = outcome at h ⊢
    obtain ⟨result, next⟩ := outcome
    cases result with
    | error e => cases h
    | ok r =>
      cases h
      rfl

theorem execute_eq_ok {n : Nat} (h : q.execute args db = (.ok n, after)) :
    ∃ reply, q.submit args db = (.ok reply, after) := by
  unfold execute at h
  generalize q.submit args db = outcome at h ⊢
  obtain ⟨result, next⟩ := outcome
  cases result with
  | error e => cases h
  | ok reply =>
    cases h
    exact ⟨reply, rfl⟩

theorem execute_of_submit {reply : Reply} (h : q.submit args db = (.ok reply, after)) :
    q.execute args db = (.ok reply.affected, after) := by
  unfold execute
  rw [h]
  rfl

variable {α : Type} {reader : RowReader α}

theorem fetchOptional_eq_ok {found : Option α}
    (h : q.fetchOptional reader args db = (.ok found, after)) :
    ∃ reply, q.submit args db = (.ok reply, after) ∧ q.optionalOf reader reply = .ok found := by
  unfold fetchOptional at h
  generalize q.submit args db = outcome at h ⊢
  obtain ⟨result, next⟩ := outcome
  cases result with
  | error e => cases h
  | ok reply =>
    obtain ⟨hfound, rfl⟩ := Prod.mk.inj h
    exact ⟨reply, rfl, hfound⟩

theorem fetchOptional_of_submit {reply : Reply} (h : q.submit args db = (.ok reply, after)) :
    q.fetchOptional reader args db = (q.optionalOf reader reply, after) := by
  unfold fetchOptional
  rw [h]
  rfl

theorem fetchOne_eq_ok {a : α} (h : q.fetchOne reader args db = (.ok a, after)) :
    ∃ reply, q.submit args db = (.ok reply, after) ∧
      q.optionalOf reader reply = .ok (some a) := by
  unfold fetchOne at h
  generalize hfetch : q.fetchOptional reader args db = outcome at h
  obtain ⟨result, next⟩ := outcome
  rcases result with e | found
  · cases h
  · cases found with
    | none => cases h
    | some a =>
      cases h
      exact fetchOptional_eq_ok hfetch

theorem fetchOne_of_submit {reply : Reply} {a : α} (h : q.submit args db = (.ok reply, after))
    (hread : q.optionalOf reader reply = .ok (some a)) :
    q.fetchOne reader args db = (.ok a, after) := by
  unfold fetchOne
  rw [fetchOptional_of_submit h, hread]
  rfl

end Query

end QueryBook
