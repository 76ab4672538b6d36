import QueryBook.Proofs.Migration.Run

/-!
# What happens in a run, with the answers of the session

A run as a machine that stands at a phase, makes a call or gives a notice, and goes on to the next
phase; a call that fails ends it. The entries of a run are its calls with what they answered and its
notices. Main statement: every run, of any session and with any observer, goes through the phases,
and its entries are what the session was asked and what the observer was told
(`exists_transcript`). What is true of all runs can then be proved of one step of the machine.
-/

namespace QueryBook.Migration

/-! ## Entries -/

/-- What a call answers. -/
inductive Answer where
  | done
  /-- The row that has been read, if there is one, or written. -/
  | row (found : Option VersionRow)
  | failed (e : Error)

/-- A call that has been made, and its answer. -/
structure Step where
  call : Call
  answer : Answer

/-- One of the things that happen in a run, with the answer if it is a call. -/
inductive Entry where
  | step (made : Step)
  | notice (n : Notice)

/-- The notice of an event, if it is one. -/
def Event.notice? : Event → Option Notice
  | .call _ => none
  | .notice n => some n

namespace Entry

def event : Entry → Event
  | .step made => .call made.call
  | .notice n => .notice n

def step? : Entry → Option Step
  | .step made => some made
  | .notice _ => none

def notice? : Entry → Option Notice
  | .step _ => none
  | .notice n => some n

theorem notice?_comp_event : Event.notice? ∘ event = notice? := by
  funext entry
  cases entry <;> rfl

end Entry

/-! ## Sessions that write down what they are asked -/

variable {σ τ ω ω' α : Type}

/-- Makes a call and writes it down with its answer. -/
def recorded (c : Call) (answer : α → Answer) (act : σ → Except Error α × σ) (s : σ × List Step) :
    Except Error α × (σ × List Step) :=
  match act s.1 with
  | (.error e, s₁) => (.error e, s₁, s.2 ++ [⟨c, .failed e⟩])
  | (.ok a, s₁) => (.ok a, s₁, s.2 ++ [⟨c, answer a⟩])

/-- The session that writes down every call with its answer. -/
def Session.recording (session : Session σ) : Session (σ × List Step) where
  ensureTable := recorded .ensure (fun _ => .done) session.ensureTable
  readVersion := recorded .read .row session.readVersion
  seedVersion version :=
    recorded (.seed version) (fun row => .row (some row)) (session.seedVersion version)
  runPatch p := recorded (.run p) (fun _ => .done) (session.runPatch p)
  storeVersion version := recorded (.store version) (fun _ => .done) (session.storeVersion version)

/-- The calls of a run with their answers, in order. -/
def Session.steps (session : Session σ) (observer : Observer ω) (patches : List Patch) (s : σ)
    (o : ω) : List Step :=
  (applyAll session.recording observer patches (s, []) o).session.2

/-- Both acts answer the same in related states and leave related states behind. -/
def Alike (R : σ → τ → Prop) (act : σ → Except Error α × σ) (act' : τ → Except Error α × τ) : Prop :=
  ∀ s t, R s t → ∃ result s₁ t₁, act s = (result, s₁) ∧ act' t = (result, t₁) ∧ R s₁ t₁

/-- Every call of one session is answered like that of the other. -/
structure Session.Simulates (session : Session σ) (other : Session τ) (R : σ → τ → Prop) : Prop where
  ensureTable : Alike R session.ensureTable other.ensureTable
  readVersion : Alike R session.readVersion other.readVersion
  seedVersion : ∀ version, Alike R (session.seedVersion version) (other.seedVersion version)
  runPatch : ∀ p, Alike R (session.runPatch p) (other.runPatch p)
  storeVersion : ∀ version, Alike R (session.storeVersion version) (other.storeVersion version)

theorem alike_recorded (c : Call) (answer : α → Answer) (act : σ → Except Error α × σ) :
    Alike (fun s t => s = t.1) act (recorded c answer act) := by
  rintro s ⟨t, log⟩ rfl
  unfold recorded
  rcases act s with ⟨e | a, s₁⟩
  · exact ⟨_, _, _, rfl, rfl, rfl⟩
  · exact ⟨_, _, _, rfl, rfl, rfl⟩

/-- Writing down what is asked does not change what is answered. -/
theorem Session.simulates_recording (session : Session σ) :
    session.Simulates session.recording fun s t => s = t.1 where
  ensureTable := alike_recorded _ _ _
  readVersion := alike_recorded _ _ _
  seedVersion _ := alike_recorded _ _ _
  runPatch _ := alike_recorded _ _ _
  storeVersion _ := alike_recorded _ _ _

theorem alike_self (act : σ → Except Error α × σ) : Alike Eq act act := by
  rintro s _ rfl
  exact ⟨_, _, _, rfl, rfl, rfl⟩

theorem Session.simulates_self (session : Session σ) : session.Simulates session Eq where
  ensureTable := alike_self _
  readVersion := alike_self _
  seedVersion _ := alike_self _
  runPatch _ := alike_self _
  storeVersion _ := alike_self _

variable {session : Session σ} {other : Session τ} {R : σ → τ → Prop}

/-- The run ends and is made of the same as the other, whatever the observers do. -/
structure Run.Like (R : σ → τ → Prop) (r : Run σ ω) (r' : Run τ ω') : Prop where
  result : r.result = r'.result
  events : r.events = r'.events
  session : R r.session r'.session

theorem Run.Like.after {r : Run σ ω} {r' : Run τ ω'} (h : r.Like R r') (events : List Event) :
    (r.after events).Like R (r'.after events) :=
  ⟨h.result, congrArg (events ++ ·) h.events, h.session⟩

theorem applyFrom_like (h : session.Simulates other R) (observer : Observer ω)
    (observer' : Observer ω') (patches : List Patch) (current : VersionRow) {s : σ} {t : τ}
    (hst : R s t) (o : ω) (o' : ω') :
    (applyFrom session observer current s o patches).Like R
      (applyFrom other observer' current t o' patches) := by
  induction patches generalizing current s t o o' with
  | nil => exact ⟨rfl, rfl, hst⟩
  | cons p rest ih =>
    unfold applyFrom
    split
    · exact (ih current hst _ _).after _
    · obtain ⟨result, s₁, t₁, hrun, hrun', hst₁⟩ := h.runPatch p s t hst
      rw [hrun, hrun']
      cases result with
      | error e => exact ⟨rfl, rfl, hst₁⟩
      | ok u =>
        obtain ⟨result, s₂, t₂, hstore, hstore', hst₂⟩ := h.storeVersion p.version s₁ t₁ hst₁
        dsimp only
        rw [hstore, hstore']
        cases result with
        | error e => exact ⟨rfl, rfl, hst₂⟩
        | ok u => exact (ih _ hst₂ _ _).after _

/-- Runs of sessions that answer alike are alike, whatever their observers do. -/
theorem applyAll_like (h : session.Simulates other R) (observer : Observer ω)
    (observer' : Observer ω') (patches : List Patch) {s : σ} {t : τ} (hst : R s t) (o : ω) (o' : ω') :
    (applyAll session observer patches s o).Like R (applyAll other observer' patches t o') := by
  unfold applyAll
  obtain ⟨result, s₁, t₁, hensure, hensure', hst₁⟩ := h.ensureTable s t hst
  rw [hensure, hensure']
  cases result with
  | error e => exact ⟨rfl, rfl, hst₁⟩
  | ok u =>
    obtain ⟨result, s₂, t₂, hread, hread', hst₂⟩ := h.readVersion s₁ t₁ hst₁
    dsimp only
    rw [hread, hread']
    rcases result with e | _ | current
    · exact ⟨rfl, rfl, hst₂⟩
    · obtain ⟨result, s₃, t₃, hseed, hseed', hst₃⟩ :=
        h.seedVersion (headVersion patches) s₂ t₂ hst₂
      dsimp only
      rw [hseed, hseed']
      cases result with
      | error e => exact ⟨rfl, rfl, hst₃⟩
      | ok current => exact (applyFrom_like h observer observer' patches current hst₃ _ _).after _
    · exact (applyFrom_like h observer observer' patches current hst₂ _ _).after _

/-! ## Phases -/

/-- Where a run stands between two entries. -/
inductive Phase where
  | opening
  | tableReady
  /-- No version is stored yet. -/
  | rowMissing
  /-- The row is stored, and these patches are still to be gone through. -/
  | loop (current : VersionRow) (rest : List Patch)
  /-- The patch is about to run. -/
  | started (current : VersionRow) (p : Patch) (rest : List Patch)
  /-- The patch has run. -/
  | ran (current : VersionRow) (p : Patch) (rest : List Patch)
  /-- The patch has run and its version has been stored. -/
  | stored (current : VersionRow) (p : Patch) (rest : List Patch)

/-- The call that comes next, if what comes next is a call. -/
def Phase.awaits (patches : List Patch) : Phase → Option Call
  | .opening => some .ensure
  | .tableReady => some .read
  | .rowMissing => some (.seed (headVersion patches))
  | .started _ p _ => some (.run p)
  | .ran _ p _ => some (.store p.version)
  | .loop _ _ | .stored _ _ _ => none

/-- What can come next in a run of the patches, if it does not fail, and where it leads. -/
inductive Next (patches : List Patch) : Phase → Entry → Phase → Prop where
  | ensured : Next patches .opening (.step ⟨.ensure, .done⟩) .tableReady
  | found (row : VersionRow) :
    Next patches .tableReady (.step ⟨.read, .row (some row)⟩) (.loop row patches)
  | missing : Next patches .tableReady (.step ⟨.read, .row none⟩) .rowMissing
  | seeded (row : VersionRow) :
    Next patches .rowMissing (.step ⟨.seed (headVersion patches), .row (some row)⟩)
      (.loop row patches)
  | skipped {current : VersionRow} {p : Patch} {rest : List Patch}
    (h : p.version ≤ current.version) :
    Next patches (.loop current (p :: rest)) (.notice (.skipped p)) (.loop current rest)
  | started {current : VersionRow} {p : Patch} {rest : List Patch}
    (h : current.version < p.version) :
    Next patches (.loop current (p :: rest)) (.notice (.started p)) (.started current p rest)
  | ran {current : VersionRow} {p : Patch} {rest : List Patch} :
    Next patches (.started current p rest) (.step ⟨.run p, .done⟩) (.ran current p rest)
  | stored {current : VersionRow} {p : Patch} {rest : List Patch} :
    Next patches (.ran current p rest) (.step ⟨.store p.version, .done⟩)
      (.stored { current with version := p.version } p rest)
  | finished {current : VersionRow} {p : Patch} {rest : List Patch} :
    Next patches (.stored current p rest) (.notice (.finished p)) (.loop current rest)

/-- A run of the patches can stand at the phase after the entries. -/
inductive Stands (patches : List Patch) : List Entry → Phase → Prop where
  | opening : Stands patches [] .opening
  | next {entries : List Entry} {phase phase' : Phase} {entry : Entry}
    (h : Stands patches entries phase) (hnext : Next patches phase entry phase') :
    Stands patches (entries ++ [entry]) phase'

/-- A run of the patches can end with the result after the entries: when it has gone through all
patches, or with the call that fails. -/
inductive Ends (patches : List Patch) : List Entry → Except Error VersionRow → Prop where
  | ok {entries : List Entry} {row : VersionRow} (h : Stands patches entries (.loop row [])) :
    Ends patches entries (.ok row)
  | error {entries : List Entry} {phase : Phase} {c : Call} (e : Error)
    (h : Stands patches entries phase) (hcall : phase.awaits patches = some c) :
    Ends patches (entries ++ [.step ⟨c, .failed e⟩]) (.error e)

/-! ## What observers are told -/

/-- An observer after it has been told notices. -/
def Observer.tell (observer : Observer ω) (o : ω) (notices : List Notice) : ω :=
  notices.foldl (fun o n => observer n o) o

theorem Observer.tell_append (observer : Observer ω) (o : ω) (first second : List Notice) :
    observer.tell o (first ++ second) = observer.tell (observer.tell o first) second :=
  List.foldl_append

/-- The observer has been told the notices among the events, in their order. -/
structure Run.Tells (observer : Observer ω) (o : ω) (r : Run σ ω) : Prop where
  observer : r.observer = observer.tell o (r.events.filterMap Event.notice?)

theorem Run.Tells.after {observer : Observer ω} {o : ω} {r : Run σ ω} {before : List Event}
    (h : r.Tells observer (observer.tell o (before.filterMap Event.notice?))) :
    (r.after before).Tells observer o where
  observer := by
    rw [Run.after_observer, h.observer, ← Observer.tell_append, ← List.filterMap_append]
    rfl

theorem applyFrom_tells (session : Session σ) (observer : Observer ω) (patches : List Patch)
    (current : VersionRow) (s : σ) (o : ω) :
    (applyFrom session observer current s o patches).Tells observer o := by
  induction patches generalizing current s o with
  | nil => exact ⟨rfl⟩
  | cons p rest ih =>
    unfold applyFrom
    split
    · exact (ih current s _).after
    · rcases session.runPatch p s with ⟨e | u, s₁⟩
      · exact ⟨rfl⟩
      dsimp only
      rcases session.storeVersion p.version s₁ with ⟨e | u, s₂⟩
      · exact ⟨rfl⟩
      · exact (ih _ s₂ _).after

theorem applyAll_tells (session : Session σ) (observer : Observer ω) (patches : List Patch) (s : σ)
    (o : ω) : (applyAll session observer patches s o).Tells observer o := by
  unfold applyAll
  rcases session.ensureTable s with ⟨e | u, s₁⟩
  · exact ⟨rfl⟩
  dsimp only
  rcases session.readVersion s₁ with ⟨e | _ | current, s₂⟩
  · exact ⟨rfl⟩
  · dsimp only
    rcases session.seedVersion (headVersion patches) s₂ with ⟨e | current, s₃⟩
    · exact ⟨rfl⟩
    · exact (applyFrom_tells session observer patches current s₃ o).after
  · exact (applyFrom_tells session observer patches current s₂ o).after

/-! ## Every run goes through the phases -/

/-- A run of a recording session that began with a log has had the entries. -/
structure Run.Had (log : List Step) (entries : List Entry) (r : Run (σ × List Step) ω) : Prop where
  events : r.events = entries.map Entry.event
  steps : r.session.2 = log ++ entries.filterMap Entry.step?

/-- Entries that come before those of a run. -/
theorem Run.Had.after {log log' : List Step} {entries : List Entry} {r : Run (σ × List Step) ω}
    (h : r.Had log' entries) (before : List Entry)
    (hlog : log' = log ++ before.filterMap Entry.step?) :
    (r.after (before.map Entry.event)).Had log (before ++ entries) where
  events := by rw [List.map_append, ← h.events]; rfl
  steps := by rw [Run.after_session, h.steps, hlog, List.filterMap_append, List.append_assoc]

/-- The entries of a patch that runs and whose version is stored. -/
def applied (p : Patch) : List Entry :=
  [.notice (.started p), .step ⟨.run p, .done⟩, .step ⟨.store p.version, .done⟩,
    .notice (.finished p)]

/-- What the act answers is written down behind what was written down before. -/
def Logs (c : Call) (answer : α → Answer)
    (act : σ × List Step → Except Error α × (σ × List Step)) : Prop :=
  ∀ s log, (∃ e s₁, act (s, log) = (.error e, s₁, log ++ [⟨c, .failed e⟩])) ∨
    ∃ a s₁, act (s, log) = (.ok a, s₁, log ++ [⟨c, answer a⟩])

theorem logs_recorded (c : Call) (answer : α → Answer) (act : σ → Except Error α × σ) :
    Logs c answer (recorded c answer act) := by
  intro s log
  unfold recorded
  rcases act s with ⟨e | a, s₁⟩
  · exact .inl ⟨e, s₁, rfl⟩
  · exact .inr ⟨a, s₁, rfl⟩

/-- Every call is written down with its answer. -/
structure Session.LogsAll (session : Session (σ × List Step)) : Prop where
  ensureTable : Logs .ensure (fun _ => .done) session.ensureTable
  readVersion : Logs .read .row session.readVersion
  seedVersion : ∀ version, Logs (.seed version) (fun row => .row (some row))
    (session.seedVersion version)
  runPatch : ∀ p, Logs (.run p) (fun _ => .done) (session.runPatch p)
  storeVersion : ∀ version, Logs (.store version) (fun _ => .done) (session.storeVersion version)

theorem Session.recording_logsAll (session : Session σ) : session.recording.LogsAll where
  ensureTable := logs_recorded _ _ _
  readVersion := logs_recorded _ _ _
  seedVersion _ := logs_recorded _ _ _
  runPatch _ := logs_recorded _ _ _
  storeVersion _ := logs_recorded _ _ _

variable {logging : Session (σ × List Step)}

/-- The loop goes on from where it stands to an end. -/
theorem exists_had_applyFrom (hlogs : logging.LogsAll) (observer : Observer ω)
    {patches : List Patch} (rest : List Patch) {entries : List Entry} {current : VersionRow}
    (h : Stands patches entries (.loop current rest)) (s : σ) (log : List Step) (o : ω) :
    ∃ more, (applyFrom logging observer current (s, log) o rest).Had log more ∧
      Ends patches (entries ++ more) (applyFrom logging observer current (s, log) o rest).result := by
  induction rest generalizing entries current s log o with
  | nil =>
    refine ⟨[], ⟨rfl, (List.append_nil _).symm⟩, ?_⟩
    rw [List.append_nil]
    exact .ok h
  | cons p rest ih =>
    unfold applyFrom
    split
    · rename_i hle
      obtain ⟨more, hhad, hends⟩ := ih (h.next (.skipped hle)) s log (observer (.skipped p) o)
      refine ⟨_, hhad.after [.notice (.skipped p)] (List.append_nil _).symm, ?_⟩
      rw [← List.append_assoc]
      exact hends
    · rename_i hgt
      have hstarted := h.next (.started (Int64.not_le.1 hgt))
      rcases hlogs.runPatch p s log with ⟨e, s₁, hrun⟩ | ⟨u, s₁, hrun⟩
      · rw [hrun]
        refine ⟨[.notice (.started p), .step ⟨.run p, .failed e⟩], ⟨rfl, rfl⟩, ?_⟩
        simpa using Ends.error e hstarted rfl
      rw [hrun]
      dsimp only
      have hran := hstarted.next .ran
      rcases hlogs.storeVersion p.version s₁ (log ++ [⟨.run p, .done⟩]) with
        ⟨e, s₂, hstore⟩ | ⟨u, s₂, hstore⟩
      · rw [hstore]
        refine ⟨[.notice (.started p), .step ⟨.run p, .done⟩, .step ⟨.store p.version, .failed e⟩],
          ⟨rfl, List.append_assoc log _ _⟩, ?_⟩
        simpa using Ends.error e hran rfl
      · rw [hstore]
        obtain ⟨more, hhad, hends⟩ := ih ((hran.next .stored).next .finished) s₂
          (log ++ [⟨.run p, .done⟩] ++ [⟨.store p.version, .done⟩])
          (observer (.finished p) (observer (.started p) o))
        refine ⟨_, hhad.after (applied p) (List.append_assoc log _ _), ?_⟩
        simpa [applied] using hends

/-- A run goes from its opening to an end. -/
theorem exists_had_applyAll (hlogs : logging.LogsAll) (observer : Observer ω)
    (patches : List Patch) (s : σ) (o : ω) :
    ∃ entries, (applyAll logging observer patches (s, []) o).Had [] entries ∧
      Ends patches entries (applyAll logging observer patches (s, []) o).result := by
  have hopening : Stands patches [] .opening := .opening
  unfold applyAll
  rcases hlogs.ensureTable s [] with ⟨e, s₁, hensure⟩ | ⟨u, s₁, hensure⟩
  · rw [hensure]
    exact ⟨[.step ⟨.ensure, .failed e⟩], ⟨rfl, rfl⟩, .error e hopening rfl⟩
  rw [hensure]
  dsimp only
  have hready := hopening.next .ensured
  rcases hlogs.readVersion s₁ ([] ++ [⟨.ensure, .done⟩]) with ⟨e, s₂, hread⟩ | ⟨found, s₂, hread⟩
  · rw [hread]
    exact ⟨[.step ⟨.ensure, .done⟩, .step ⟨.read, .failed e⟩], ⟨rfl, rfl⟩, .error e hready rfl⟩
  rw [hread]
  cases found with
  | some current =>
    obtain ⟨more, hhad, hends⟩ := exists_had_applyFrom hlogs observer patches
      (hready.next (.found current)) s₂ _ o
    exact ⟨_, hhad.after [.step ⟨.ensure, .done⟩, .step ⟨.read, .row (some current)⟩] rfl, hends⟩
  | none =>
    dsimp only
    have hmissing := hready.next .missing
    rcases hlogs.seedVersion (headVersion patches) s₂
        ([] ++ [⟨.ensure, .done⟩] ++ [⟨.read, .row none⟩]) with
      ⟨e, s₃, hseed⟩ | ⟨current, s₃, hseed⟩
    · rw [hseed]
      exact ⟨[.step ⟨.ensure, .done⟩, .step ⟨.read, .row none⟩,
        .step ⟨.seed (headVersion patches), .failed e⟩], ⟨rfl, rfl⟩, .error e hmissing rfl⟩
    · rw [hseed]
      obtain ⟨more, hhad, hends⟩ := exists_had_applyFrom hlogs observer patches
        (hmissing.next (.seeded current)) s₃ _ o
      exact ⟨_, hhad.after [.step ⟨.ensure, .done⟩, .step ⟨.read, .row none⟩,
        .step ⟨.seed (headVersion patches), .row (some current)⟩] rfl, hends⟩

/-- The entries of a run: its events, what the session was asked and answered, and what the observer
was told. Writing this down has changed nothing. -/
structure Transcript (session : Session σ) (observer : Observer ω) (patches : List Patch) (s : σ)
    (o : ω) (entries : List Entry) : Prop where
  unchanged : (applyAll session observer patches s o).Like (fun s t => s = t.1)
    (applyAll session.recording observer patches (s, []) o)
  events : (applyAll session observer patches s o).events = entries.map Entry.event
  steps : session.steps observer patches s o = entries.filterMap Entry.step?
  told : (applyAll session observer patches s o).observer =
    observer.tell o (entries.filterMap Entry.notice?)

/-- Every run has a transcript, which ends with its result. -/
theorem exists_transcript (session : Session σ) (observer : Observer ω) (patches : List Patch)
    (s : σ) (o : ω) :
    ∃ entries, Transcript session observer patches s o entries ∧
      Ends patches entries (applyAll session observer patches s o).result := by
  obtain ⟨entries, hhad, hends⟩ := exists_had_applyAll session.recording_logsAll observer patches s o
  have hsame : s = (s, ([] : List Step)).1 := rfl
  have hlike := applyAll_like session.simulates_recording observer observer patches hsame o o
  have hevents := hlike.events.trans hhad.events
  refine ⟨entries, ⟨hlike, hevents, hhad.steps, ?_⟩, hlike.result ▸ hends⟩
  rw [(applyAll_tells session observer patches s o).observer, hevents, List.filterMap_map,
    Entry.notice?_comp_event]

end QueryBook.Migration
