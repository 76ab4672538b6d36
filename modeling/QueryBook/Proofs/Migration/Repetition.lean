import QueryBook.Proofs.Migration.AllOrNothing
import QueryBook.Proofs.Migration.Selection

/-!
# Runs one after another

A session remembers what it stores if its calls, where they succeed, read and write one row
(`Session.Remembers`). A run that ends well then leaves the row that it returns, and no patch is newer
than this row. So a second run of the same patches reads the row and skips every patch
(`applyAll_again`), and it is all one whether patches are run at once or release by release
(`applyAll_releases`).
-/

namespace QueryBook.Migration

variable {σ ω ω' : Type} {session : Session σ} {observer : Observer ω} {patches : List Patch}

/-! ## The loop takes its course -/

/-- What happens in the loop begins the course of its patches. A loop that ends well takes the whole
course and returns the row with the greatest version. -/
theorem applyFrom_course (session : Session σ) (observer : Observer ω) (patches : List Patch)
    (current : VersionRow) (s : σ) (o : ω) :
    (applyFrom session observer current s o patches).events <+:
        (course current.version patches).map Entry.event ∧
      ∀ row, (applyFrom session observer current s o patches).result = .ok row →
        (applyFrom session observer current s o patches).events =
            (course current.version patches).map Entry.event ∧
          row = { current with version := greatest current.version patches } := by
  induction patches generalizing current s o with
  | nil =>
    refine ⟨List.nil_prefix, fun row hok => ?_⟩
    cases hok
    exact ⟨rfl, rfl⟩
  | cons p rest ih =>
    unfold applyFrom
    split
    · rename_i hle
      obtain ⟨hbegins, hends⟩ := ih current s (observer (.skipped p) o)
      rw [course_skip hle]
      refine ⟨List.cons_prefix_cons.2 ⟨rfl, hbegins⟩, fun row hok => ?_⟩
      obtain ⟨hevents, hrow⟩ := hends row hok
      refine ⟨congrArg (Event.notice (.skipped p) :: ·) hevents, ?_⟩
      show row = { current with version := greatest (max current.version p.version) rest }
      rw [max_eq_of_ge hle]
      exact hrow
    · rename_i hgt
      have hlt : current.version < p.version := Int64.not_le.1 hgt
      rw [course_apply hlt, List.map_append]
      dsimp only
      rcases session.runPatch p s with ⟨e | u, s₁⟩
      · exact ⟨⟨_, rfl⟩, fun row hok => by cases hok⟩
      dsimp only
      rcases session.storeVersion p.version s₁ with ⟨e | u, s₂⟩
      · exact ⟨⟨_, rfl⟩, fun row hok => by cases hok⟩
      · obtain ⟨hbegins, hends⟩ := ih { current with version := p.version } s₂
          (observer (.finished p) (observer (.started p) o))
        refine ⟨(List.prefix_append_right_inj _).2 hbegins, fun row hok => ?_⟩
        obtain ⟨hevents, hrow⟩ := hends row hok
        refine ⟨congrArg ((applied p).map Entry.event ++ ·) hevents, ?_⟩
        show row = { current with version := greatest (max current.version p.version) rest }
        rw [max_eq_of_le (Int64.le_of_lt hlt)]
        exact hrow

/-- Where no patch is newer than the row, the loop skips them all and makes no call. -/
theorem applyFrom_of_le (session : Session σ) (observer : Observer ω) {current : VersionRow}
    (h : ∀ p ∈ patches, p.version ≤ current.version) (s : σ) (o : ω) :
    applyFrom session observer current s o patches =
      ⟨.ok current, s, observer.tell o (patches.map .skipped),
        patches.map fun p => .notice (.skipped p)⟩ := by
  induction patches generalizing o with
  | nil => rfl
  | cons p rest ih =>
    obtain ⟨hp, hrest⟩ := List.forall_mem_cons.1 h
    unfold applyFrom
    rw [if_pos hp, ih hrest]
    rfl

/-- A run that finds a row goes through the patches from it. -/
theorem applyAll_of_found {s s₁ s₂ : σ} {o : ω} {current : VersionRow}
    (hensure : session.ensureTable s = (.ok (), s₁))
    (hread : session.readVersion s₁ = (.ok (some current), s₂)) :
    applyAll session observer patches s o =
      (applyFrom session observer current s₂ o patches).after [.call .ensure, .call .read] := by
  unfold applyAll
  rw [hensure]
  dsimp only
  rw [hread]

/-! ## Sessions that remember -/

/-- The calls that succeed read and write one row. `Holds found s` says that this row is `found` in
the state `s`; no patch touches it. -/
structure Session.Remembers (session : Session σ) (patches : List Patch)
    (Holds : Option VersionRow → σ → Prop) : Prop where
  ensureTable : ∀ {found s s'}, Holds found s → session.ensureTable s = (.ok (), s') → Holds found s'
  readVersion : ∀ {found read s s'}, Holds found s → session.readVersion s = (.ok read, s') →
    read = found ∧ Holds found s'
  /-- The row that is returned is the one that is written, whatever its version. -/
  seedVersion : ∀ {version row s s'}, Holds none s →
    session.seedVersion version s = (.ok row, s') → Holds (some row) s'
  runPatch : ∀ {p found s s'}, p ∈ patches → Holds found s →
    session.runPatch p s = (.ok (), s') → Holds found s'
  storeVersion : ∀ {version row s s'}, Holds (some row) s →
    session.storeVersion version s = (.ok (), s') → Holds (some { row with version := version }) s'

namespace Session.Remembers

variable {Holds : Option VersionRow → σ → Prop} {found : Option VersionRow}
variable {current row : VersionRow} {s : σ} {o : ω}

theorem mono (h : session.Remembers patches Holds) {fewer : List Patch} (hsub : fewer ⊆ patches) :
    session.Remembers fewer Holds where
  ensureTable := h.ensureTable
  readVersion := h.readVersion
  seedVersion := h.seedVersion
  runPatch hp := h.runPatch (hsub hp)
  storeVersion := h.storeVersion

/-- The loop keeps its row stored. -/
theorem loop (h : session.Remembers patches Holds) (observer : Observer ω) :
    LoopInvariant session observer patches fun _ current s _ => Holds (some current) s where
  skip _ _ hs _ := hs
  run _ hp hs _ hrun hstore := h.storeVersion (h.runPatch hp hs hrun) hstore

theorem applyFrom_ok (h : session.Remembers patches Holds) (hs : Holds (some current) s)
    (hok : (applyFrom session observer current s o patches).result = .ok row) :
    Holds (some row) (applyFrom session observer current s o patches).session :=
  @Migration.applyFrom_ok _ _ _ _ _ _ (h.loop observer) [] _ _ _ _ hs hok

/-- A run that ends well leaves the row that it returns. -/
theorem applyAll_ok (h : session.Remembers patches Holds) (hs : Holds found s)
    (hok : (applyAll session observer patches s o).result = .ok row) :
    Holds (some row) (applyAll session observer patches s o).session ∧
      ∀ p ∈ patches, p.version ≤ row.version := by
  obtain ⟨s₁, s₂, current, hensure, hstart, hloop, hsession, -⟩ := applyAll_eq_ok hok
  have hcurrent : Holds (some current) s₂ := by
    have hs₁ := h.ensureTable hs hensure
    rcases hstart with hread | ⟨s', hread, hseed⟩
    · obtain ⟨rfl, hs₂⟩ := h.readVersion hs₁ hread
      exact hs₂
    · obtain ⟨rfl, hs'⟩ := h.readVersion hs₁ hread
      exact h.seedVersion hs' hseed
  rw [hsession]
  refine ⟨h.applyFrom_ok hcurrent hloop, ?_⟩
  obtain ⟨-, rfl⟩ := (applyFrom_course session observer patches current s₂ o).2 row hloop
  exact (le_greatest current.version patches).2

/-- From a stored row a run that ends well takes the course of its patches. -/
theorem applyAll_of_stored (h : session.Remembers patches Holds) (hs : Holds (some current) s)
    (hok : (applyAll session observer patches s o).result = .ok row) :
    (applyAll session observer patches s o).events =
        [.call .ensure, .call .read] ++ (course current.version patches).map Entry.event ∧
      row = { current with version := greatest current.version patches } := by
  obtain ⟨s₁, s₂, start, hensure, hstart, hloop, -⟩ := applyAll_eq_ok hok
  have hs₁ := h.ensureTable hs hensure
  rcases hstart with hread | ⟨s', hread, -⟩
  · obtain ⟨heq, -⟩ := h.readVersion hs₁ hread
    cases heq
    obtain ⟨hevents, hrow⟩ := (applyFrom_course session observer patches current s₂ o).2 row hloop
    rw [applyAll_of_found hensure hread, Run.after_events, hevents]
    exact ⟨rfl, hrow⟩
  · obtain ⟨heq, -⟩ := h.readVersion hs₁ hread
    cases heq

end Session.Remembers

/-! ### Memory and databases -/

theorem Memory.eq_ok_of_guarded {α : Type} {c : Call} {act : Memory → α × Memory} {m m' : Memory}
    {a : α} (h : guarded c act m = (.ok a, m')) : act m = (a, m') := by
  unfold guarded at h
  split at h
  · cases h
  · cases h
    rfl

/-- A session in memory remembers its row, whatever it seeds and wherever it fails. -/
theorem Memory.session_remembers (patches : List Patch) :
    Memory.session.Remembers patches fun found m => m.stored = found where
  ensureTable hm hcall := by
    dsimp only [session] at hcall
    cases eq_ok_of_guarded hcall
    exact hm
  readVersion hm hcall := by
    dsimp only [session] at hcall
    cases eq_ok_of_guarded hcall
    exact ⟨hm, hm⟩
  seedVersion _ hcall := by
    dsimp only [session] at hcall
    cases eq_ok_of_guarded hcall
    rfl
  runPatch _ hm hcall := by
    dsimp only [session] at hcall
    cases eq_ok_of_guarded hcall
    exact hm
  storeVersion hm hcall := by
    dsimp only [session] at hcall
    cases eq_ok_of_guarded hcall
    simp [hm]

/-- The version table of a database holds this row, and queries on it do what their text says. -/
structure Stores (found : Option VersionRow) (db : Database) : Prop where
  reads : Option.Rel StoredVersion.Reads db.contents.stored found
  sparesVersions : db.SparesVersions

/-- A session on a database remembers its row, if no patch is a query on the version table. -/
theorem session_remembers {m : Migrator} (hm : m.SparesVersions) :
    m.session.Remembers m.patches Stores where
  ensureTable {found db after} h hcall := by
    have hspares : after.SparesVersions := by
      simpa only [hcall] using m.session_preserves_sparesVersions.ensureTable db h.sparesVersions
    obtain ⟨hcontents, -⟩ := Migrator.ensureTable_eq_ok h.sparesVersions hcall
    refine ⟨?_, hspares⟩
    rw [hcontents]
    exact h.reads
  readVersion {found read db after} h hcall := by
    have hspares : after.SparesVersions := by
      simpa only [hcall] using m.session_preserves_sparesVersions.readVersion db h.sparesVersions
    obtain ⟨hread, hcontents, -⟩ := Migrator.readVersion_eq_ok h.sparesVersions hcall
    have hreads := h.reads
    refine ⟨?_, by rwa [hcontents], hspares⟩
    cases hstored : db.contents.stored with
    | none =>
      rw [hstored] at hread hreads
      cases hreads
      exact hread
    | some s =>
      rw [hstored] at hread hreads
      obtain ⟨row, rfl, hrow⟩ := hread
      cases hreads with
      | some hrow' => rw [hrow.unique hrow']
  seedVersion {version row db after} h hcall := by
    have hspares : after.SparesVersions := by
      simpa only [hcall] using
        m.session_preserves_sparesVersions.seedVersion version db h.sparesVersions
    obtain ⟨-, hreads, hcontents, -⟩ := Migrator.seedVersion_eq_ok h.sparesVersions hcall
    refine ⟨?_, hspares⟩
    rw [hcontents]
    exact .some hreads
  runPatch {p found db after} hp h hcall := by
    have hspares : after.SparesVersions := by
      simpa only [hcall] using m.session_preserves_sparesVersions.runPatch p db h.sparesVersions
    obtain ⟨hcontents, -⟩ := Migrator.runPatch_eq_ok (hm p hp) hcall
    refine ⟨?_, hspares⟩
    rw [hcontents]
    exact h.reads
  storeVersion {version row db after} h hcall := by
    have hspares : after.SparesVersions := by
      simpa only [hcall] using
        m.session_preserves_sparesVersions.storeVersion version db h.sparesVersions
    obtain ⟨hcontents, -⟩ := Migrator.storeVersion_eq_ok h.sparesVersions hcall
    have hreads := h.reads
    refine ⟨?_, hspares⟩
    rw [hcontents]
    cases hstored : db.contents.stored with
    | none =>
      rw [hstored] at hreads
      cases hreads
    | some s =>
      rw [hstored] at hreads
      cases hreads with
      | some hreads => exact .some (hreads.setVersion version)

/-! ## The same patches again -/

/-- The calls by which a stored row is found succeed. -/
def Session.Answers (session : Session σ) (s : σ) : Prop :=
  ∃ s₁ found s₂, session.ensureTable s = (.ok (), s₁) ∧ session.readVersion s₁ = (.ok found, s₂)

/-- Where a row is stored that is as new as every patch, a run makes no call but those by which it
finds the row, and then skips every patch. -/
theorem Session.Remembers.events_of_le {Holds : Option VersionRow → σ → Prop}
    (h : session.Remembers patches Holds) {s : σ} {row : VersionRow} (hs : Holds (some row) s)
    (hle : ∀ p ∈ patches, p.version ≤ row.version) (o : ω) :
    (applyAll session observer patches s o).events <+:
      [.call .ensure, .call .read] ++ patches.map fun p => .notice (.skipped p) := by
  rcases hensure : session.ensureTable s with ⟨e | u, s₁⟩
  · unfold applyAll
    rw [hensure]
    exact ⟨_, rfl⟩
  rcases hread : session.readVersion s₁ with ⟨e | read, s₂⟩
  · unfold applyAll
    rw [hensure]
    dsimp only
    rw [hread]
    exact ⟨_, rfl⟩
  · obtain ⟨rfl, -⟩ := h.readVersion (h.ensureTable hs hensure) hread
    rw [applyAll_of_found hensure hread, applyFrom_of_le session observer hle]
    exact List.prefix_rfl

/-- Applying patches again changes nothing. After a run that returns a row, whatever the order of its
patches and also if it has found no row, this row is stored. A second run of the same patches makes
no call but the two by which it finds the row. If these succeed, it skips every patch in the order of
the list, leaves the row as it is and returns it. -/
theorem applyAll_again {Holds : Option VersionRow → σ → Prop}
    (h : session.Remembers patches Holds) (observer : Observer ω) (observer' : Observer ω') {s : σ}
    (o : ω) (o' : ω') {found : Option VersionRow} {row : VersionRow} (hs : Holds found s)
    (hok : (applyAll session observer patches s o).result = .ok row) :
    let first := applyAll session observer patches s o
    let second := applyAll session observer' patches first.session o'
    let quiet := [.call .ensure, .call .read] ++ patches.map fun p => .notice (.skipped p)
    Holds (some row) first.session ∧ second.events <+: quiet ∧
      (session.Answers first.session →
        second.events = quiet ∧ second.observer = observer'.tell o' (patches.map .skipped) ∧
          Holds (some row) second.session ∧ second.result = .ok row) := by
  intro first second quiet
  obtain ⟨hstored, hle⟩ := h.applyAll_ok hs hok
  refine ⟨hstored, h.events_of_le hstored hle o', ?_⟩
  rintro ⟨s₁, read, s₂, hensure, hread⟩
  obtain ⟨rfl, hs₂⟩ := h.readVersion (h.ensureTable hstored hensure) hread
  have hsecond : second = _ := applyAll_of_found hensure hread
  rw [applyFrom_of_le session observer' hle] at hsecond
  rw [hsecond]
  exact ⟨rfl, rfl, hs₂, rfl⟩

/-- A session without a row, in which seeding stores another version than it is asked for. -/
def freshAtOne : Memory where
  stored := none
  now := .unixEpoch
  seeds := some 1

/-- A session in memory skips all patches in a second run, and so does one on a database. -/
theorem applyAll_again_shuffledPatches :
    ((applyAll Memory.session Observer.silent shuffledPatches freshAtOne ()).result =
        .ok ⟨9, .unixEpoch⟩ ∧
      Memory.session.Answers
        (applyAll Memory.session Observer.silent shuffledPatches freshAtOne ()).session ∧
      (applyAll Memory.session (Observer.recorder fun _ => true) shuffledPatches
        (applyAll Memory.session Observer.silent shuffledPatches freshAtOne ()).session []).observer =
          shuffledPatches.map .skipped) ∧
    let m := Migrator.userPatches
    let first := applyAll m.session Observer.silent m.patches (Migrator.atVersionOne []) ()
    first.result = .ok ⟨2, .ofMicros 0⟩ ∧ Stores (some ⟨2, .ofMicros 0⟩) first.session ∧
      (applyAll m.session Observer.silent m.patches first.session ()).events <+:
        [.call .ensure, .call .read, .notice (.skipped ⟨1, "patch-1-users"⟩),
          .notice (.skipped ⟨2, "patch-2-mail"⟩)] := by
  constructor
  · have hok : (applyAll Memory.session Observer.silent shuffledPatches freshAtOne ()).result =
        .ok ⟨9, .unixEpoch⟩ := rfl
    have hanswers : Memory.session.Answers
        (applyAll Memory.session Observer.silent shuffledPatches freshAtOne ()).session :=
      ⟨_, _, _, rfl, rfl⟩
    obtain ⟨-, -, hagain⟩ := applyAll_again (Memory.session_remembers shuffledPatches)
      Observer.silent (Observer.recorder fun _ => true) () [] rfl hok
    exact ⟨hok, hanswers, (hagain hanswers).2.1⟩
  · intro m first
    have hm : m.SparesVersions := by decide +kernel
    have hstores : Stores (some ⟨1, .ofMicros 0⟩) (Migrator.atVersionOne []) :=
      ⟨.some ⟨rfl, by decide +kernel⟩, by decide +kernel⟩
    have hok : first.result = .ok ⟨2, .ofMicros 0⟩ := by decide +kernel
    obtain ⟨hstored, hquiet, -⟩ := applyAll_again (session_remembers hm) Observer.silent
      Observer.silent () () hstores hok
    exact ⟨hok, hstored, hquiet⟩

/-! ## Release by release -/

/-- The patch that an event runs. -/
def Event.ran? : Event → Option Patch
  | .call (.run p) => some p
  | _ => none

/-- The version that an event stores. -/
def Event.stored? : Event → Option Int64
  | .call (.store version) => some version
  | _ => none

/-- The patches that a run runs, in order. -/
def Run.ran (r : Run σ ω) : List Patch :=
  r.events.filterMap Event.ran?

/-- The versions that a run stores, in order. -/
def Run.stored (r : Run σ ω) : List Int64 :=
  r.events.filterMap Event.stored?

theorem ran?_comp_event : Event.ran? ∘ Entry.event = Entry.ran? := by
  funext entry
  rcases entry with ⟨c, -⟩ | n
  · cases c <;> rfl
  · rfl

theorem stored?_comp_event : Event.stored? ∘ Entry.event = Entry.stored? := by
  funext entry
  rcases entry with ⟨c, -⟩ | n
  · cases c <;> rfl
  · rfl

theorem selected_append (version : Int64) (a b : List Patch) :
    selected version (a ++ b) = selected version a ++ selected (greatest version a) b := by
  rw [← ran_course, course_append, List.filterMap_append, ran_course, ran_course]

theorem selected_of_le {version : Int64} {patches : List Patch}
    (h : ∀ p ∈ patches, p.version ≤ version) : selected version patches = [] := by
  unfold selected
  rw [List.map_eq_nil_iff, List.filter_eq_nil_iff]
  rintro ⟨p, i⟩ hp hnewest
  exact Int64.not_lt.2 (h p (List.fst_mem_of_mem_zipIdx hp)) (of_decide_eq_true hnewest).1

/-- A run in which no call fails returns a row. -/
theorem exists_eq_ok_of_steps {s : σ} {o : ω}
    (h : ∀ step ∈ session.steps observer patches s o, step.answer.error? = none) :
    ∃ row, (applyAll session observer patches s o).result = .ok row := by
  obtain ⟨entries, htranscript, hends⟩ := exists_transcript session observer patches s o
  obtain ⟨row, hrow, -⟩ := hends.success fun c e hmem => by
    have hstep : (⟨c, .failed e⟩ : Step) ∈ session.steps observer patches s o := by
      rw [htranscript.steps]
      exact List.mem_filterMap.2 ⟨_, hmem, rfl⟩
    cases h _ hstep
  exact ⟨row, hrow⟩

/-- From a stored row, the patches run that are selected, and their versions are stored. -/
theorem Session.Remembers.ran_of_stored {Holds : Option VersionRow → σ → Prop}
    (h : session.Remembers patches Holds) {s : σ} {o : ω} {current row : VersionRow}
    (hs : Holds (some current) s) (hok : (applyAll session observer patches s o).result = .ok row) :
    (applyAll session observer patches s o).ran = selected current.version patches ∧
      (applyAll session observer patches s o).stored =
        (selected current.version patches).map (·.version) := by
  obtain ⟨hevents, -⟩ := h.applyAll_of_stored hs hok
  unfold Run.ran Run.stored
  rw [hevents]
  constructor
  · rw [List.filterMap_append, List.filterMap_map, ran?_comp_event, ran_course]
    rfl
  · rw [List.filterMap_append, List.filterMap_map, stored?_comp_event, stored_course]
    rfl

/-- Patches can be run release by release. Running the earlier ones and then all of them runs the same
patches in the same order as running all of them at once, none of them twice, stores the same
versions in the same order, and ends with the same row, stored and returned. The patches may be in
any order. -/
theorem applyAll_releases {earlier later : List Patch} {Holds : Option VersionRow → σ → Prop}
    (h : session.Remembers (earlier ++ later) Holds) (observer : Observer ω) {s : σ}
    {start : VersionRow} (hs : Holds (some start) s) (o₁ o₂ o₃ : ω)
    (hfirst : ∀ step ∈ session.steps observer earlier s o₁, step.answer.error? = none)
    (hsecond : ∀ step ∈ session.steps observer (earlier ++ later)
      (applyAll session observer earlier s o₁).session o₂, step.answer.error? = none)
    (honce : ∀ step ∈ session.steps observer (earlier ++ later) s o₃, step.answer.error? = none) :
    let first := applyAll session observer earlier s o₁
    let second := applyAll session observer (earlier ++ later) first.session o₂
    let once := applyAll session observer (earlier ++ later) s o₃
    once.ran = selected start.version (earlier ++ later) ∧ once.ran.Nodup ∧
      first.ran ++ second.ran = once.ran ∧ first.stored ++ second.stored = once.stored ∧
      ∃ row, second.result = .ok row ∧ once.result = .ok row ∧
        Holds (some row) second.session ∧ Holds (some row) once.session := by
  intro first second once
  have hearlier := h.mono (List.subset_append_left earlier later)
  obtain ⟨row₁, hok₁⟩ := exists_eq_ok_of_steps hfirst
  obtain ⟨row₂, hok₂⟩ := exists_eq_ok_of_steps hsecond
  obtain ⟨row₃, hok₃⟩ := exists_eq_ok_of_steps honce
  obtain ⟨hs₁, hle⟩ := hearlier.applyAll_ok hs hok₁
  obtain ⟨-, hrow₁⟩ := hearlier.applyAll_of_stored hs hok₁
  obtain ⟨-, hrow₂⟩ := h.applyAll_of_stored hs₁ hok₂
  obtain ⟨-, hrow₃⟩ := h.applyAll_of_stored hs hok₃
  obtain ⟨hran₁, hstored₁⟩ := hearlier.ran_of_stored hs hok₁
  obtain ⟨hran₂, hstored₂⟩ := h.ran_of_stored hs₁ hok₂
  obtain ⟨hran₃, hstored₃⟩ := h.ran_of_stored hs hok₃
  -- the second run passes over the earlier patches and selects the later ones that the one run does
  have hversion : row₁.version = greatest start.version earlier := by rw [hrow₁]
  have hlater : selected row₁.version (earlier ++ later) = selected row₁.version later := by
    rw [selected_append, selected_of_le hle, greatest_of_le hle, List.nil_append]
  have hselected : selected start.version earlier ++ selected row₁.version (earlier ++ later) =
      selected start.version (earlier ++ later) := by
    rw [hlater, hversion, ← selected_append]
  have hrow : row₂ = row₃ := by
    rw [hrow₂, hrow₃, greatest_append, greatest_of_le hle, greatest_append, ← hversion, hrow₁]
  refine ⟨hran₃, ?_, ?_, ?_, row₃, hrow ▸ hok₂, hok₃, ?_, (h.applyAll_ok hs hok₃).1⟩
  · rw [hran₃]
    refine (pairwise_selected start.version (earlier ++ later)).imp ?_
    rintro p _ hlt rfl
    exact Int64.lt_irrefl hlt
  · rw [hran₁, hran₂, hran₃, hselected]
  · rw [hstored₁, hstored₂, hstored₃, ← List.map_append, hselected]
  · exact hrow ▸ (h.applyAll_ok hs₁ hok₂).1

theorem applyAll_releases_shuffledPatches :
    (∀ step ∈ Memory.session.steps Observer.silent (shuffledPatches.take 3) atThree (),
      step.answer.error? = none) ∧
    (∀ step ∈ Memory.session.steps Observer.silent shuffledPatches
      (applyAll Memory.session Observer.silent (shuffledPatches.take 3) atThree ()).session (),
      step.answer.error? = none) ∧
    (∀ step ∈ Memory.session.steps Observer.silent shuffledPatches atThree (),
      step.answer.error? = none) ∧
    (applyAll Memory.session Observer.silent (shuffledPatches.take 3) atThree ()).ran ++
        (applyAll Memory.session Observer.silent shuffledPatches
          (applyAll Memory.session Observer.silent (shuffledPatches.take 3) atThree ()).session
          ()).ran =
      (applyAll Memory.session Observer.silent shuffledPatches atThree ()).ran := by
  have hfirst : ∀ step ∈ Memory.session.steps Observer.silent (shuffledPatches.take 3) atThree (),
      step.answer.error? = none := by decide
  have hsecond : ∀ step ∈ Memory.session.steps Observer.silent shuffledPatches
      (applyAll Memory.session Observer.silent (shuffledPatches.take 3) atThree ()).session (),
      step.answer.error? = none := by decide
  have honce : ∀ step ∈ Memory.session.steps Observer.silent shuffledPatches atThree (),
      step.answer.error? = none := by decide
  refine ⟨hfirst, hsecond, honce, ?_⟩
  have hremembers : Memory.session.Remembers (shuffledPatches.take 3 ++ shuffledPatches.drop 3)
      fun found m => m.stored = found := Memory.session_remembers _
  exact (applyAll_releases hremembers Observer.silent rfl () () () hfirst hsecond honce).2.2.1

end QueryBook.Migration
