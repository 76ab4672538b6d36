import QueryBook.Console.Report
import QueryBook.Proofs.Block.Rendered
import QueryBook.Proofs.Catalog.History
import QueryBook.Proofs.Database.Rules
import QueryBook.Proofs.Patch.Discover

/-!
# What a command has to work with

A command that gets as far as its work has patches whose names are words (`isWord_of_prepare`) and a
database that holds what the only server held before (`exists_of_prepare`): connecting asks questions
and changes nothing.
-/

namespace QueryBook

open Text (IsWord)

/-! ## Connecting -/

/-- `after` comes from `before` by questions that were sent as they are. -/
structure Database.Asked (before after : Database) : Prop where
  contents : after.contents = before.contents
  snapshot : after.snapshot = before.snapshot
  now : after.now = before.now
  sparesVersions : before.SparesVersions → after.SparesVersions

namespace Database.Asked

variable {a b c : Database}

theorem refl (db : Database) : Asked db db :=
  ⟨rfl, rfl, rfl, id⟩

theorem trans (hab : Asked a b) (hbc : Asked b c) : Asked a c where
  contents := hbc.contents.trans hab.contents
  snapshot := hbc.snapshot.trans hab.snapshot
  now := hbc.now.trans hab.now
  sparesVersions := hbc.sparesVersions ∘ hab.sparesVersions

end Database.Asked

namespace Connection

open Database (Asked)

theorem asked_ask (db : Database) (sql : String) : Asked db (db.ask sql).2 where
  contents := rfl
  snapshot := rfl
  now := rfl
  sparesVersions h := h.use sql

theorem asked_enter (p : Parameters) (db : Database) : Asked db (enter p db).2 := by
  have hask := asked_ask db readOnlyQuestion
  unfold enter
  dsimp only
  generalize db.ask readOnlyQuestion = asked at hask ⊢
  obtain ⟨answer, after⟩ := asked
  split
  · exact .refl db
  · split
    · exact .refl db
    · split
      · exact .refl db
      · split
        · cases answer <;> exact hask
        · exact .refl db

theorem asked_tryPlaces (p : Parameters) (e : Endpoint) (failure : ConnectError)
    (places : List Parameters.Place) (db : Database) :
    Asked db (tryPlaces p e failure places db).2 := by
  induction places generalizing failure db with
  | nil => exact .refl db
  | cons place rest ih =>
    unfold tryPlaces
    split
    · have henter := asked_enter p db
      generalize enter p db = entered at henter ⊢
      obtain ⟨failure' | u, after⟩ := entered
      · exact henter.trans (ih failure' after)
      · exact henter
    · exact ih _ db

theorem connect_eq_ok {text : String} {server : Option Endpoint} {db : Database}
    (h : connect text server = .ok db) : ∃ e, server = some e ∧ Asked e.database db := by
  unfold connect at h
  dsimp only at h
  split at h
  · cases h
  · rename_i p _
    split at h
    · cases h
    · cases h
    · rename_i places e _
      have htry := asked_tryPlaces p e .unreachable places e.database
      generalize tryPlaces p e .unreachable places e.database = tried at h htry
      obtain ⟨failure | u, after⟩ := tried
      · cases h
      · cases h
        exact ⟨e, rfl, htry⟩

end Connection

/-! ## Names -/

/-- The queries of sources have words as names. -/
theorem Catalog.isWord_name {sources : List Source} {c : Catalog}
    (h : (∅ : Catalog).load sources = .ok c) : ∀ q ∈ c.toList, IsWord q.name.toList := by
  intro q hq
  rw [Loading.load_eq] at h
  split at h
  · cases h
  · cases h
    rw [mem_toList_iff, get?_insertAll_eq_some_iff] at hq
    rcases hq with ⟨-, before, after, hdefinitions, -⟩ | ⟨hempty, -⟩
    · have hmem : q ∈ sources.flatMap Source.definitions := by simp [hdefinitions]
      obtain ⟨source, -, hsource⟩ := List.mem_flatMap.1 hmem
      unfold Source.definitions at hsource
      split at hsource
      · cases hsource
      · rename_i queries hqueries
        exact (Block.canonical_of_mem_queries hqueries hsource).1
    · cases hempty

namespace Console.Machine

variable {m : Machine} {migrator : Migrator} {db : Database}

theorem prepare_eq_ok (h : m.prepare = .ok (migrator, db)) :
    m.migrator = .ok migrator ∧ m.connect = .ok db := by
  unfold prepare at h
  split at h
  · cases h
  · rename_i found hfound
    cases hconnect : m.connect with
    | error report =>
      rw [hconnect] at h
      cases h
    | ok db' =>
      rw [hconnect] at h
      cases h
      exact ⟨hfound, rfl⟩

/-- The names of the patches are words. -/
theorem isWord_of_prepare (h : m.prepare = .ok (migrator, db)) :
    ∀ p ∈ migrator.patches, IsWord p.name.toList := by
  obtain ⟨hmigrator, -⟩ := prepare_eq_ok h
  unfold Machine.migrator catalog at hmigrator
  cases hsources : m.sources with
  | error e =>
    rw [hsources] at hmigrator
    cases hmigrator
  | ok sources =>
    rw [hsources] at hmigrator
    cases hload : (∅ : Catalog).load sources with
    | error e =>
      simp only [Except.bind, hload] at hmigrator
      cases hmigrator
    | ok c =>
      simp only [Except.bind, hload] at hmigrator
      obtain ⟨-, hdiscover⟩ := Migrator.ofCatalog_eq_ok hmigrator
      intro p hp
      obtain ⟨q, hq, hname⟩ := List.mem_map.1 (Patch.mem_names_of_mem_discover hdiscover p hp)
      rw [← hname]
      exact Catalog.isWord_name hload q hq

/-- The database holds what the server held before. -/
theorem exists_of_prepare (h : m.prepare = .ok (migrator, db)) :
    ∃ e, m.server = some e ∧ e.database.Asked db := by
  obtain ⟨-, hconnect⟩ := prepare_eq_ok h
  unfold connect at hconnect
  split at hconnect
  · cases hconnect
  · split at hconnect
    · cases hconnect
    · rename_i found hfound
      cases hconnect
      exact Connection.connect_eq_ok hfound

end Console.Machine

end QueryBook
