import QueryBook.Migration.Session

/-!
# Runs of patches, for any session

Two rules for reasoning about a run. What every call of a session keeps, however it ends, a run
keeps (`applyAll_preserves`). For a run that ends well there is a loop rule (`applyFrom_ok`): its
invariant speaks of the patches that have been run so far, and at the end these are the patches that
were `due`.
-/

namespace QueryBook.Migration

/-- The patches that a run starting at a version gets to run: each is newer than that version and
than every patch before it. -/
def due (version : Int64) : List Patch → List Patch
  | [] => []
  | p :: rest => if p.version ≤ version then due version rest else p :: due p.version rest

/-- What is due is newer than the version at which the run starts. -/
theorem lt_of_mem_due {version : Int64} {patches : List Patch} {p : Patch}
    (h : p ∈ due version patches) : version < p.version := by
  induction patches generalizing version with
  | nil => cases h
  | cons q rest ih =>
    unfold due at h
    split at h
    · exact ih h
    · rename_i hgt
      have hq : version < q.version := Int64.not_le.1 hgt
      rcases List.mem_cons.1 h with rfl | h
      · exact hq
      · exact Int64.lt_trans hq (ih h)

theorem pairwise_due (version : Int64) (patches : List Patch) :
    (due version patches).Pairwise fun a b => a.version < b.version := by
  induction patches generalizing version with
  | nil => exact .nil
  | cons p rest ih =>
    unfold due
    split
    · exact ih version
    · exact List.pairwise_cons.2 ⟨fun q hq => lt_of_mem_due hq, ih p.version⟩

/-- In ascending order, just the patches newer than the start are due. -/
theorem due_eq_filter {patches : List Patch}
    (h : patches.Pairwise fun a b => a.version < b.version) (version : Int64) :
    due version patches = patches.filter (version < ·.version) := by
  induction patches generalizing version with
  | nil => rfl
  | cons p rest ih =>
    obtain ⟨hp, hrest⟩ := List.pairwise_cons.1 h
    unfold due
    split
    · rename_i hle
      rw [List.filter_cons_of_neg (by simpa using hle)]
      exact ih hrest version
    · -- everything behind `p` is newer than `p` and so than the start
      rename_i hgt
      have hlt : version < p.version := Int64.not_le.1 hgt
      rw [List.filter_cons_of_pos (by simpa using hlt), ih hrest p.version]
      congr 1
      refine List.filter_congr fun q hq => ?_
      have hq := hp q hq
      simp [hq, Int64.lt_trans hlt hq]

theorem le_headVersion {patches : List Patch}
    (h : patches.Pairwise fun a b => a.version < b.version) :
    ∀ p ∈ patches, p.version ≤ headVersion patches := by
  rcases List.eq_nil_or_concat patches with rfl | ⟨front, last, rfl⟩
  · simp
  · rw [List.concat_eq_append] at h ⊢
    have hhead : headVersion (front ++ [last]) = last.version := by simp [headVersion]
    intro p hp
    rw [hhead]
    rcases List.mem_append.1 hp with hp | hp
    · exact Int64.le_of_lt ((List.pairwise_append.1 h).2.2 p hp last List.mem_cons_self)
    · cases List.mem_singleton.1 hp
      exact Int64.le_refl _

/-- A run that starts at the version of the last patch has nothing to do. -/
theorem due_headVersion {patches : List Patch}
    (h : patches.Pairwise fun a b => a.version < b.version) :
    due (headVersion patches) patches = [] := by
  rw [due_eq_filter h, List.filter_eq_nil_iff]
  intro p hp
  simpa using le_headVersion h p hp

variable {σ ω : Type}

@[simp] theorem Run.after_result (events : List Event) (r : Run σ ω) :
    (r.after events).result = r.result := rfl

@[simp] theorem Run.after_session (events : List Event) (r : Run σ ω) :
    (r.after events).session = r.session := rfl

@[simp] theorem Run.after_observer (events : List Event) (r : Run σ ω) :
    (r.after events).observer = r.observer := rfl

@[simp] theorem Run.after_events (events : List Event) (r : Run σ ω) :
    (r.after events).events = events ++ r.events := rfl

variable {session : Session σ} {observer : Observer ω}

/-! ## What every call keeps -/

/-- Every call of the session keeps the property, whether it succeeds or fails. -/
structure Session.Preserves (session : Session σ) (P : σ → Prop) : Prop where
  ensureTable : ∀ s, P s → P (session.ensureTable s).2
  readVersion : ∀ s, P s → P (session.readVersion s).2
  seedVersion : ∀ version s, P s → P (session.seedVersion version s).2
  runPatch : ∀ patch s, P s → P (session.runPatch patch s).2
  storeVersion : ∀ version s, P s → P (session.storeVersion version s).2

theorem applyFrom_preserves {P : σ → Prop} (h : session.Preserves P) (patches : List Patch)
    (current : VersionRow) (s : σ) (o : ω) (hs : P s) :
    P (applyFrom session observer current s o patches).session := by
  induction patches generalizing current s o with
  | nil => exact hs
  | cons p rest ih =>
    unfold applyFrom
    split
    · -- the patch is skipped without a call
      exact ih current s _ hs
    · have hrun := h.runPatch p s hs
      generalize session.runPatch p s = outcome at hrun ⊢
      obtain ⟨result, s₁⟩ := outcome
      cases result with
      | error e => exact hrun
      | ok u =>
        have hstore := h.storeVersion p.version s₁ hrun
        dsimp only
        generalize session.storeVersion p.version s₁ = outcome at hstore ⊢
        obtain ⟨result, s₂⟩ := outcome
        cases result with
        | error e => exact hstore
        | ok u => exact ih _ s₂ _ hstore

theorem applyAll_preserves {P : σ → Prop} (h : session.Preserves P) (patches : List Patch) (s : σ)
    (o : ω) (hs : P s) : P (applyAll session observer patches s o).session := by
  unfold applyAll
  have hensure := h.ensureTable s hs
  generalize session.ensureTable s = outcome at hensure ⊢
  obtain ⟨result, s₁⟩ := outcome
  cases result with
  | error e => exact hensure
  | ok u =>
    have hread := h.readVersion s₁ hensure
    dsimp only
    generalize session.readVersion s₁ = outcome at hread ⊢
    obtain ⟨result, s₂⟩ := outcome
    rcases result with e | found
    · exact hread
    · cases found with
      | some current => exact applyFrom_preserves h patches current s₂ o hread
      | none =>
        have hseed := h.seedVersion (headVersion patches) s₂ hread
        dsimp only
        generalize session.seedVersion (headVersion patches) s₂ = outcome at hseed ⊢
        obtain ⟨result, s₃⟩ := outcome
        cases result with
        | error e => exact hseed
        | ok current => exact applyFrom_preserves h patches current s₃ o hseed

/-! ## Runs that end well -/

/-- An invariant of the loop over patches: it speaks of the patches that have been run, of the row
that is now stored, of the session and of the observer. -/
structure LoopInvariant (session : Session σ) (observer : Observer ω) (patches : List Patch)
    (I : List Patch → VersionRow → σ → ω → Prop) : Prop where
  skip : ∀ {done current s o}, ∀ p ∈ patches, I done current s o → p.version ≤ current.version →
    I done current s (observer (.skipped p) o)
  run : ∀ {done current s s₁ s₂ o}, ∀ p ∈ patches, I done current s o →
    current.version < p.version → session.runPatch p s = (.ok (), s₁) →
    session.storeVersion p.version s₁ = (.ok (), s₂) →
    I (done ++ [p]) { current with version := p.version } s₂
      (observer (.finished p) (observer (.started p) o))

/-- The loop rule. -/
theorem applyFrom_ok {patches : List Patch} {I : List Patch → VersionRow → σ → ω → Prop}
    (h : LoopInvariant session observer patches I) {done : List Patch} {current row : VersionRow}
    {s : σ} {o : ω} (hI : I done current s o)
    (hok : (applyFrom session observer current s o patches).result = .ok row) :
    I (done ++ due current.version patches) row
      (applyFrom session observer current s o patches).session
      (applyFrom session observer current s o patches).observer := by
  -- over the patches; `done` grows as they are run, so it must be arbitrary
  induction patches generalizing done current s o with
  | nil =>
    cases hok
    simpa [due, applyFrom] using hI
  | cons p rest ih =>
    have hrest : LoopInvariant session observer rest I :=
      ⟨fun p hp => h.skip p (List.mem_cons_of_mem _ hp),
        fun p hp => h.run p (List.mem_cons_of_mem _ hp)⟩
    unfold applyFrom at hok ⊢
    unfold due
    split
    · rename_i hle
      rw [if_pos hle] at hok
      exact ih hrest (h.skip p List.mem_cons_self hI hle) hok
    · rename_i hgt
      rw [if_neg hgt] at hok
      dsimp only at hok ⊢
      generalize hrun : session.runPatch p s = outcome at hok ⊢
      obtain ⟨result, s₁⟩ := outcome
      cases result with
      | error e => cases hok
      | ok u =>
        dsimp only at hok ⊢
        generalize hstore : session.storeVersion p.version s₁ = outcome at hok ⊢
        obtain ⟨result, s₂⟩ := outcome
        cases result with
        | error e => cases hok
        | ok u =>
          have hstep := h.run p List.mem_cons_self hI (Int64.not_le.1 hgt) hrun hstore
          simpa using ih hrest hstep hok

/-- The returned row is not older than the row that the loop starts from, nor than any patch that
was due. -/
theorem applyFrom_le {patches : List Patch} {current row : VersionRow} {s : σ} {o : ω}
    (hok : (applyFrom session observer current s o patches).result = .ok row) :
    current.version ≤ row.version ∧ ∀ p ∈ due current.version patches, p.version ≤ row.version := by
  have hloop : LoopInvariant session observer patches fun done now _ _ =>
      current.version ≤ now.version ∧ ∀ p ∈ done, p.version ≤ now.version := by
    constructor
    · intro done now s o p _ h _
      exact h
    · intro done now s s₁ s₂ o p _ h hlt _ _
      have hle : now.version ≤ p.version := Int64.le_of_lt hlt
      refine ⟨Int64.le_trans h.1 hle, fun q hq => ?_⟩
      rcases List.mem_append.1 hq with hq | hq
      · exact Int64.le_trans (h.2 q hq) hle
      · cases List.mem_singleton.1 hq
        exact Int64.le_refl _
  have hstart : current.version ≤ current.version ∧
      ∀ p ∈ ([] : List Patch), p.version ≤ current.version := ⟨Int64.le_refl _, by simp⟩
  simpa using applyFrom_ok hloop hstart hok

/-- The returned row differs from the one that the loop starts from only in its version, which is
that of the last patch that was due. -/
theorem applyFrom_row {patches : List Patch} {current row : VersionRow} {s : σ} {o : ω}
    (hok : (applyFrom session observer current s o patches).result = .ok row) :
    row = { current with
      version := ((due current.version patches).getLast?.map (·.version)).getD current.version } := by
  have hloop : LoopInvariant session observer patches fun done now _ _ =>
      now = { current with version := (done.getLast?.map (·.version)).getD current.version } := by
    constructor
    · intro done now s o p _ h _
      exact h
    · intro done now s s₁ s₂ o p _ h _ _ _
      simp [h]
  have hstart : current = { current with
      version := (([] : List Patch).getLast?.map (·.version)).getD current.version } := rfl
  exact applyFrom_ok hloop hstart hok

/-- The patch of the notice that it has run. -/
def Notice.finished? : Notice → Option Patch
  | .finished p => some p
  | _ => none

/-- An observer that writes everything down hears that just the patches that were due have run, in
their order. -/
theorem applyFrom_finished {patches : List Patch} {current row : VersionRow} {s : σ}
    {heard : List Notice}
    (hok : (applyFrom session (Observer.recorder fun _ => true) current s heard patches).result =
      .ok row) :
    (applyFrom session (Observer.recorder fun _ => true) current s heard patches).observer.filterMap
        Notice.finished? =
      heard.filterMap Notice.finished? ++ due current.version patches := by
  have hloop : LoopInvariant session (Observer.recorder fun _ => true) patches
      fun done _ _ notices => notices.filterMap Notice.finished? =
        heard.filterMap Notice.finished? ++ done := by
    constructor
    · intro done now s notices p _ h _
      simpa [Observer.recorder, List.filterMap_cons, Notice.finished?] using h
    · intro done now s s₁ s₂ notices p _ h _ _ _
      simp [Observer.recorder, List.filterMap_cons, Notice.finished?, h]
  have hstart : heard.filterMap Notice.finished? = heard.filterMap Notice.finished? ++ [] :=
    (List.append_nil _).symm
  simpa using applyFrom_ok hloop hstart hok

/-- The notice is not about a patch that is passed over. -/
def Notice.ofRun : Notice → Bool
  | .skipped _ => false
  | _ => true

/-- What is heard of the patches that run. -/
def notices (patches : List Patch) : List Notice :=
  patches.flatMap fun p => [.started p, .finished p]

/-- An observer that hears of the patches that run hears of just those that were due, in their
order: each is started and then finished. -/
theorem applyFrom_notices {patches : List Patch} {current row : VersionRow} {s : σ}
    {heard : List Notice}
    (hok : (applyFrom session (Observer.recorder Notice.ofRun) current s heard patches).result =
      .ok row) :
    (applyFrom session (Observer.recorder Notice.ofRun) current s heard patches).observer =
      heard ++ notices (due current.version patches) := by
  have hloop : LoopInvariant session (Observer.recorder Notice.ofRun) patches
      fun done _ _ told => told = heard ++ notices done := by
    constructor
    · intro done now s told p _ h _
      exact h
    · intro done now s s₁ s₂ told p _ h _ _ _
      simp [Observer.recorder, Notice.ofRun, notices, h]
  have hstart : heard = heard ++ notices [] := (List.append_nil _).symm
  exact applyFrom_ok hloop hstart hok

/-- The calls before the loop, in a run that ends well. -/
theorem applyAll_eq_ok {patches : List Patch} {s : σ} {o : ω} {row : VersionRow}
    (hok : (applyAll session observer patches s o).result = .ok row) :
    ∃ s₁ s₂ current, session.ensureTable s = (.ok (), s₁) ∧
      (session.readVersion s₁ = (.ok (some current), s₂) ∨
        ∃ s', session.readVersion s₁ = (.ok none, s') ∧
          session.seedVersion (headVersion patches) s' = (.ok current, s₂)) ∧
      (applyFrom session observer current s₂ o patches).result = .ok row ∧
      (applyAll session observer patches s o).session =
        (applyFrom session observer current s₂ o patches).session ∧
      (applyAll session observer patches s o).observer =
        (applyFrom session observer current s₂ o patches).observer := by
  unfold applyAll at hok ⊢
  generalize hensure : session.ensureTable s = outcome at hok ⊢
  obtain ⟨result, s₁⟩ := outcome
  cases result with
  | error e => cases hok
  | ok u =>
    dsimp only at hok ⊢
    generalize hread : session.readVersion s₁ = outcome at hok ⊢
    obtain ⟨result, s₂⟩ := outcome
    rcases result with e | found
    · cases hok
    · cases found with
      | some current => exact ⟨s₁, s₂, current, rfl, .inl hread, hok, rfl, rfl⟩
      | none =>
        dsimp only at hok ⊢
        generalize hseed : session.seedVersion (headVersion patches) s₂ = outcome at hok ⊢
        obtain ⟨result, s₃⟩ := outcome
        cases result with
        | error e => cases hok
        | ok current => exact ⟨s₁, s₃, current, rfl, .inr ⟨s₂, hread, hseed⟩, hok, rfl, rfl⟩

end QueryBook.Migration
