import QueryBook.Migration.Memory
import QueryBook.Proofs.Migration.Transcript

/-!
# How a run stops

A run stops at the first call that fails, with its error. What may come before a call or a notice in
a run, and what must come after it, is proved of one step of the machine and from there of whole
runs (`CleanRun`). Nothing of this depends on the observer (`applyAll_stopsCleanly`).
-/

namespace QueryBook.Migration

/-! ## Lists that are made at the end -/

/-- An element of a list to which one is added is the one added or stood in the list before. -/
theorem eq_or_exists_of_concat_eq {α : Type} {l before after : List α} {x y : α}
    (h : l ++ [x] = before ++ y :: after) :
    (before = l ∧ y = x ∧ after = []) ∨ ∃ rest, after = rest ++ [x] ∧ l = before ++ y :: rest := by
  rcases List.eq_nil_or_concat after with rfl | ⟨rest, z, rfl⟩
  · obtain ⟨hl, hx⟩ := List.append_inj' h rfl
    cases hx
    exact .inl ⟨hl.symm, rfl, rfl⟩
  · rw [List.concat_eq_append, ← List.cons_append, ← List.append_assoc] at h
    obtain ⟨hl, hx⟩ := List.append_inj' h rfl
    cases hx
    exact .inr ⟨rest, by simp, hl⟩

/-- Each entry stands in a relation to the entries before it. -/
def Each (R : List Entry → Entry → Prop) (entries : List Entry) : Prop :=
  ∀ before entry after, entries = before ++ entry :: after → R before entry

theorem Each.concat {R : List Entry → Entry → Prop} {entries : List Entry} {entry : Entry}
    (h : Each R entries) (hentry : R entries entry) : Each R (entries ++ [entry]) := by
  intro before other after hsplit
  rcases eq_or_exists_of_concat_eq hsplit with ⟨rfl, rfl, -⟩ | ⟨rest, -, hrest⟩
  · exact hentry
  · exact h before other rest hrest

variable {patches : List Patch} {entries : List Entry} {phase phase' : Phase} {entry : Entry}
variable {result : Except Error VersionRow}

/-- What holds of each step, taken from where a run can stand, and of each call that fails there,
holds of all entries. -/
theorem Ends.each {R : List Entry → Entry → Prop}
    (hnext : ∀ {entries phase entry phase'}, Stands patches entries phase →
      Next patches phase entry phase' → R entries entry)
    (hfail : ∀ {entries phase c} e, Stands patches entries phase → phase.awaits patches = some c →
      R entries (.step ⟨c, .failed e⟩))
    (h : Ends patches entries result) : Each R entries := by
  have hstands : ∀ {entries phase}, Stands patches entries phase → Each R entries := by
    intro entries phase h
    induction h with
    | opening =>
      intro before entry after hsplit
      simp at hsplit
    | next h hstep ih => exact ih.concat (hnext h hstep)
  cases h with
  | ok h => exact hstands h
  | error e h hcall => exact (hstands h).concat (hfail e h hcall)

/-! ## What comes before -/

/-- What has happened last at a phase of a patch. -/
def Phase.Recent : Phase → List Entry → Prop
  | .started _ p _, entries => [.notice (.started p)] <:+ entries
  | .ran _ p _, entries => [.notice (.started p), .step ⟨.run p, .done⟩] <:+ entries
  | .stored _ p _, entries =>
    [.notice (.started p), .step ⟨.run p, .done⟩, .step ⟨.store p.version, .done⟩] <:+ entries
  | _, _ => True

theorem Stands.recent (h : Stands patches entries phase) : phase.Recent entries := by
  induction h with
  | opening => trivial
  | next h hstep ih =>
    cases hstep with
    | ensured => trivial
    | found row => trivial
    | missing => trivial
    | seeded row => trivial
    | skipped hle => trivial
    | started hlt => exact List.suffix_append _ _
    | ran =>
      obtain ⟨front, rfl⟩ := ih
      exact ⟨front, by simp⟩
    | stored =>
      obtain ⟨front, rfl⟩ := ih
      exact ⟨front, by simp⟩
    | finished => trivial

/-- No call has failed while the run goes on. -/
theorem Stands.not_failed (h : Stands patches entries phase) (c : Call) (e : Error) :
    .step ⟨c, .failed e⟩ ∉ entries := by
  induction h with
  | opening => simp
  | next h hstep ih => cases hstep <;> simpa using ih

/-- A version is stored directly after the patch has run. -/
theorem Ends.store_after_run (h : Ends patches entries result) :
    Each (fun before entry => ∀ version answer, entry = .step ⟨.store version, answer⟩ →
      ∃ p, p.version = version ∧ [.step ⟨.run p, .done⟩] <:+ before) entries := by
  refine h.each ?_ ?_
  · intro entries phase entry phase' h hstep version answer heq
    subst heq
    cases hstep with
    | stored => exact ⟨_, rfl, (List.suffix_cons _ _).trans h.recent⟩
  · intro entries phase c e h hcall version answer heq
    cases heq
    cases phase <;> cases hcall
    exact ⟨_, rfl, (List.suffix_cons _ _).trans h.recent⟩

/-- A patch is finished directly after it has run and its version has been stored. -/
theorem Ends.finished_after_store (h : Ends patches entries result) :
    Each (fun before entry => ∀ p, entry = .notice (.finished p) →
      [.step ⟨.run p, .done⟩, .step ⟨.store p.version, .done⟩] <:+ before) entries := by
  refine h.each ?_ ?_
  · intro entries phase entry phase' h hstep p heq
    subst heq
    cases hstep with
    | finished => exact (List.suffix_cons _ _).trans h.recent
  · intro entries phase c e h hcall p heq
    cases heq

/-- A row is seeded, or is about to be, just if it has been missed. -/
theorem Stands.seeded_iff (h : Stands patches entries phase) :
    ((∃ version answer, .step ⟨.seed version, answer⟩ ∈ entries) ∨ phase = .rowMissing) ↔
      .step ⟨.read, .row none⟩ ∈ entries := by
  induction h with
  | opening => simp
  | next h hstep ih =>
    cases hstep with
    | missing => simp
    | seeded row =>
      have hmissing := ih.1 (.inr rfl)
      exact iff_of_true (.inl ⟨_, _, List.mem_append_right _ (List.mem_singleton.2 rfl)⟩)
        (List.mem_append_left _ hmissing)
    | _ => simpa using ih

/-! ## What comes after -/

/-- Where a patch has run and its version has been stored, the patch is about to be finished. -/
theorem Stands.of_applied (h : Stands patches entries phase) {p : Patch} {version : Int64}
    (hlast : [.step ⟨.run p, .done⟩, .step ⟨.store version, .done⟩] <:+ entries) :
    ∃ current rest, phase = .stored current p rest := by
  cases h with
  | opening => simp at hlast
  | next h hstep =>
    rename_i before _ entry
    obtain ⟨front, hfront⟩ := hlast
    have hsplit : (front ++ [.step ⟨.run p, .done⟩]) ++ [.step ⟨.store version, .done⟩] =
        before ++ [entry] := by simpa using hfront
    obtain ⟨rfl, hentry⟩ := List.append_inj' hsplit rfl
    cases hentry
    cases hstep with
    | stored =>
      rename_i current q rest
      -- the entry before is the one by which the phase was reached
      obtain ⟨front', hrecent⟩ := h.recent
      have hrun : (front' ++ [.notice (.started q)]) ++ [.step ⟨.run q, .done⟩] =
          front ++ [.step ⟨.run p, .done⟩] := by simpa using hrecent
      have hq := (List.append_inj' hrun rfl).2
      cases hq
      exact ⟨_, _, rfl⟩

/-- A patch that has run and whose version has been stored is finished at once. -/
theorem Ends.finished_of_applied (h : Ends patches entries result) {before after : List Entry}
    {p : Patch} {version : Int64}
    (hsplit : entries =
      before ++ .step ⟨.run p, .done⟩ :: .step ⟨.store version, .done⟩ :: after) :
    [.notice (.finished p)] <+: after := by
  have hfinished : Each (fun before entry =>
      [.step ⟨.run p, .done⟩, .step ⟨.store version, .done⟩] <:+ before →
        entry = .notice (.finished p)) entries := by
    refine h.each ?_ ?_
    · intro entries phase entry phase' h hstep hlast
      obtain ⟨current, rest, rfl⟩ := h.of_applied hlast
      cases hstep
      rfl
    · intro entries phase c e h hcall hlast
      obtain ⟨current, rest, rfl⟩ := h.of_applied hlast
      cases hcall
  have hlast : [.step ⟨.run p, .done⟩, .step ⟨.store version, .done⟩] <:+
      before ++ [.step ⟨.run p, .done⟩, .step ⟨.store version, .done⟩] := List.suffix_append _ _
  cases after with
  | cons entry after =>
    rw [← hfinished _ entry after (by simpa using hsplit) hlast]
    exact ⟨after, rfl⟩
  | nil =>
    -- a run does not end there
    rw [← hsplit] at hlast
    cases h with
    | ok h =>
      obtain ⟨current, rest, hphase⟩ := h.of_applied hlast
      cases hphase
    | error e h hcall =>
      rename_i entries phase c
      have hend : entries ++ [.step ⟨c, .failed e⟩] =
          (before ++ [.step ⟨.run p, .done⟩]) ++ [.step ⟨.store version, .done⟩] := by
        simpa using hsplit
      have hfailed := (List.append_inj' hend rfl).2
      cases hfailed

/-! ## Notices -/

theorem filterMap_notice?_concat_step (entries : List Entry) (made : Step) :
    (entries ++ [Entry.step made]).filterMap Entry.notice? = entries.filterMap Entry.notice? := by
  rw [List.filterMap_append]
  exact List.append_nil _

/-- Every patch that is started is finished at once. -/
def Paired (notices : List Notice) : Prop :=
  ∀ before p after, notices = before ++ .started p :: after → [.finished p] <+: after

theorem Paired.concat_skipped {notices : List Notice} (h : Paired notices) (p : Patch) :
    Paired (notices ++ [.skipped p]) := by
  intro before q after hsplit
  rcases eq_or_exists_of_concat_eq hsplit with ⟨-, heq, -⟩ | ⟨rest, rfl, hrest⟩
  · cases heq
  · exact (h before q rest hrest).trans (List.prefix_append _ _)

/-- The last patch that is started may be unfinished. -/
theorem Paired.of_concat_started {notices before after : List Notice} (h : Paired notices)
    {p q : Patch} (hsplit : notices ++ [.started p] = before ++ .started q :: after) :
    before = notices ∧ q = p ∧ after = [] ∨ [.finished q] <+: after := by
  rcases eq_or_exists_of_concat_eq hsplit with ⟨rfl, heq, rfl⟩ | ⟨rest, rfl, hrest⟩
  · cases heq
    exact .inl ⟨rfl, rfl, rfl⟩
  · exact .inr ((h before q rest hrest).trans (List.prefix_append _ _))

theorem Paired.concat_applied {notices : List Notice} (h : Paired notices) (p : Patch) :
    Paired (notices ++ [.started p] ++ [.finished p]) := by
  intro before q after hsplit
  rcases eq_or_exists_of_concat_eq hsplit with ⟨-, heq, -⟩ | ⟨rest, rfl, hrest⟩
  · cases heq
  · rcases h.of_concat_started hrest with ⟨-, rfl, rfl⟩ | hfinished
    · exact List.prefix_rfl
    · exact hfinished.trans (List.prefix_append _ _)

/-- The patch that has been started and not been finished. -/
def Phase.unfinished? : Phase → Option Patch
  | .started _ p _ | .ran _ p _ | .stored _ p _ => some p
  | _ => none

/-- All but the patch that the run is at have been finished. -/
theorem Stands.exists_paired (h : Stands patches entries phase) :
    ∃ notices, Paired notices ∧ entries.filterMap Entry.notice? =
      notices ++ (phase.unfinished?.map Notice.started).toList := by
  induction h with
  | opening =>
    refine ⟨[], ?_, rfl⟩
    intro before p after hsplit
    simp at hsplit
  | next h hstep ih =>
    obtain ⟨notices, hpaired, heq⟩ := ih
    rw [List.filterMap_append, heq]
    cases hstep with
    | skipped hle =>
      rename_i current p rest
      exact ⟨_, hpaired.concat_skipped p, by simp [Phase.unfinished?, Entry.notice?]⟩
    | finished =>
      rename_i current p rest
      exact ⟨_, hpaired.concat_applied p, by simp [Phase.unfinished?, Entry.notice?]⟩
    | _ => exact ⟨notices, hpaired, by simp [Phase.unfinished?, Entry.notice?]⟩

/-- In a run that has ended, all but at most one patch have been finished. -/
theorem Ends.exists_paired (h : Ends patches entries result) :
    ∃ notices unfinished, Paired notices ∧ entries.filterMap Entry.notice? =
      notices ++ (Option.map Notice.started unfinished).toList := by
  cases h with
  | ok h =>
    obtain ⟨notices, hpaired, heq⟩ := h.exists_paired
    exact ⟨notices, _, hpaired, heq⟩
  | error e h hcall =>
    rename_i entries phase c
    obtain ⟨notices, hpaired, heq⟩ := h.exists_paired
    exact ⟨notices, phase.unfinished?, hpaired, (filterMap_notice?_concat_step _ _).trans heq⟩

/-- A patch that is started last is unfinished; all others are finished at once. -/
theorem Ends.started (h : Ends patches entries result) {before after : List Notice} {p : Patch}
    (hsplit : entries.filterMap Entry.notice? = before ++ .started p :: after) :
    after = [] ∨ [.finished p] <+: after := by
  obtain ⟨notices, unfinished, hpaired, heq⟩ := h.exists_paired
  rw [heq] at hsplit
  cases unfinished with
  | none =>
    rw [Option.map_none, Option.toList_none, List.append_nil] at hsplit
    exact .inr (hpaired _ _ _ hsplit)
  | some q =>
    rcases hpaired.of_concat_started hsplit with ⟨-, -, hnil⟩ | hfinished
    · exact .inl hnil
    · exact .inr hfinished

/-- The last notice is that a patch is started just if what failed is the call that runs a patch or
the one that stores its version. -/
theorem Ends.started_last_iff (h : Ends patches entries result) :
    (∃ before p, entries.filterMap Entry.notice? = before ++ [.started p]) ↔
      (∃ p e, .step ⟨.run p, .failed e⟩ ∈ entries) ∨
        ∃ version e, .step ⟨.store version, .failed e⟩ ∈ entries := by
  have hlast : ∀ {notices : List Notice}, Paired notices →
      ¬ ∃ before p, notices = before ++ [.started p] := by
    rintro notices hpaired ⟨before, p, heq⟩
    simpa using hpaired before p [] heq
  cases h with
  | ok h =>
    obtain ⟨notices, hpaired, heq⟩ := h.exists_paired
    simp only [Phase.unfinished?, Option.map_none, Option.toList_none, List.append_nil] at heq
    rw [heq]
    simp [hlast hpaired, h.not_failed]
  | error e h hcall =>
    rename_i entries phase c
    obtain ⟨notices, hpaired, heq⟩ := h.exists_paired
    rw [filterMap_notice?_concat_step, heq]
    cases phase with
    | started current p rest =>
      cases hcall
      exact iff_of_true ⟨notices, p, rfl⟩ (.inl ⟨p, e, by simp⟩)
    | ran current p rest =>
      cases hcall
      exact iff_of_true ⟨notices, p, rfl⟩ (.inr ⟨p.version, e, by simp⟩)
    | loop current rest => cases hcall
    | stored current p rest => cases hcall
    | _ =>
      cases hcall
      simp [Phase.unfinished?, hlast hpaired, h.not_failed]

/-! ## Whole runs -/

/-- What is true of the entries of every run and its result. -/
structure CleanRun (entries : List Entry) (result : Except Error VersionRow) : Prop where
  /-- If no call fails, a row is returned. -/
  success : (∀ c e, .step ⟨c, .failed e⟩ ∉ entries) → ∃ row, result = .ok row
  /-- A call that fails is the last thing that happens, and its error is returned. -/
  failure : ∀ before c e after, entries = before ++ .step ⟨c, .failed e⟩ :: after →
    after = [] ∧ result = .error e
  /-- A row is seeded just if none was found. -/
  seeded : (∃ version answer, .step ⟨.seed version, answer⟩ ∈ entries) ↔
    .step ⟨.read, .row none⟩ ∈ entries
  /-- A version is stored only directly after a patch with this version has run. -/
  stored : ∀ before version answer after,
    entries = before ++ .step ⟨.store version, answer⟩ :: after →
      ∃ p, p.version = version ∧ [.step ⟨.run p, .done⟩] <:+ before
  /-- A patch is finished only directly after it has run and its version has been stored. -/
  finished : ∀ before p after, entries = before ++ .notice (.finished p) :: after →
    [.step ⟨.run p, .done⟩, .step ⟨.store p.version, .done⟩] <:+ before
  /-- And then it is finished. -/
  finishes : ∀ before p version after,
    entries = before ++ .step ⟨.run p, .done⟩ :: .step ⟨.store version, .done⟩ :: after →
      [.notice (.finished p)] <+: after
  /-- Of what an observer is told, that a patch is started comes last or just before that it is
  finished. -/
  started : ∀ before p after, entries.filterMap Entry.notice? = before ++ .started p :: after →
    after = [] ∨ [.finished p] <+: after
  /-- It comes last just if running the patch failed or storing its version. -/
  unfinished : (∃ before p, entries.filterMap Entry.notice? = before ++ [.started p]) ↔
    (∃ p e, .step ⟨.run p, .failed e⟩ ∈ entries) ∨
      ∃ version e, .step ⟨.store version, .failed e⟩ ∈ entries

theorem Ends.failure (h : Ends patches entries result) {before after : List Entry} {c : Call}
    {e : Error} (hsplit : entries = before ++ .step ⟨c, .failed e⟩ :: after) :
    after = [] ∧ result = .error e := by
  cases h with
  | ok h => exact absurd (hsplit ▸ by simp) (h.not_failed c e)
  | error e' h hcall =>
    rcases eq_or_exists_of_concat_eq hsplit with ⟨-, heq, rfl⟩ | ⟨rest, -, hrest⟩
    · cases heq
      exact ⟨rfl, rfl⟩
    · exact absurd (hrest ▸ by simp) (h.not_failed c e)

theorem Ends.success (h : Ends patches entries result)
    (hnone : ∀ c e, .step ⟨c, .failed e⟩ ∉ entries) :
    ∃ row, result = .ok row ∧ Stands patches entries (.loop row []) := by
  cases h with
  | ok h => exact ⟨_, rfl, h⟩
  | error e h hcall =>
    rename_i entries phase c
    exact absurd (List.mem_append_right _ (List.mem_singleton.2 rfl)) (hnone c e)

theorem Ends.seeded_iff (h : Ends patches entries result) :
    (∃ version answer, .step ⟨.seed version, answer⟩ ∈ entries) ↔
      .step ⟨.read, .row none⟩ ∈ entries := by
  cases h with
  | ok h => simpa using h.seeded_iff
  | error e h hcall =>
    rename_i entries phase c
    have hseed : phase = .rowMissing ↔ ∃ version, .seed version = c := by
      cases phase <;> cases hcall <;> simp
    have hbefore := h.seeded_iff
    rw [hseed] at hbefore
    simpa [exists_or] using hbefore

theorem Ends.cleanRun (h : Ends patches entries result) : CleanRun entries result where
  success hnone := (h.success hnone).imp fun _ hrow => hrow.1
  failure _ _ _ _ hsplit := h.failure hsplit
  seeded := h.seeded_iff
  stored before _ _ after hsplit := h.store_after_run before _ after hsplit _ _ rfl
  finished before p after hsplit := h.finished_after_store before _ after hsplit p rfl
  finishes _ _ _ _ hsplit := h.finished_of_applied hsplit
  started _ _ _ hsplit := h.started hsplit
  unfinished := h.started_last_iff

/-! ## Observers -/

variable {σ ω α : Type}

/-- An observer behind a reference is told what is told to the reference. -/
theorem Observer.tell_through (observer : Observer ω) (ref : Reference α ω) (notices : List Notice)
    (a : α) : (observer.through ref).tell a notices =
      ref.write (observer.tell (ref.read a) notices) a := by
  induction notices generalizing a with
  | nil => exact (ref.write_read a).symm
  | cons n rest ih =>
    have hstep : observer.through ref n a = ref.write (observer n (ref.read a)) a := by
      cases n <;> rfl
    show (observer.through ref).tell (observer.through ref n a) rest = _
    rw [ih, hstep, ref.read_write, ref.write_write]
    rfl

/-- Every run, of any session and with any observer, stops at the first call that fails and returns
its error; it seeds just a row that is missing, stores the version of a patch just after the patch has
run, and tells the observer that a patch is finished just when both has been done. Another observer
changes neither the calls and their answers nor what the run returns and leaves behind, and an
observer behind a reference is told the same. -/
theorem applyAll_stopsCleanly (session : Session σ) (observer : Observer ω) (patches : List Patch)
    (s : σ) (o : ω) :
    (∃ entries, Transcript session observer patches s o entries ∧
        CleanRun entries (applyAll session observer patches s o).result) ∧
      (∀ (ω' : Type) (other : Observer ω') (o' : ω'),
        session.steps other patches s o' = session.steps observer patches s o ∧
          (applyAll session other patches s o').result =
            (applyAll session observer patches s o).result ∧
          (applyAll session other patches s o').session =
            (applyAll session observer patches s o).session ∧
          (applyAll session other patches s o').events =
            (applyAll session observer patches s o).events) ∧
      ∀ (α : Type) (ref : Reference α ω) (a : α),
        (applyAll session (observer.through ref) patches s a).observer =
          ref.write (applyAll session observer patches s (ref.read a)).observer a := by
  refine ⟨?_, fun ω' other o' => ?_, fun α ref a => ?_⟩
  · obtain ⟨entries, htranscript, hends⟩ := exists_transcript session observer patches s o
    exact ⟨entries, htranscript, hends.cleanRun⟩
  · have hlike := applyAll_like session.simulates_self other observer patches (Eq.refl s) o' o
    have hsteps := applyAll_like session.recording.simulates_self other observer patches
      (Eq.refl (s, [])) o' o
    exact ⟨congrArg Prod.snd hsteps.session, hlike.result, hlike.session, hlike.events⟩
  · have hlike := applyAll_like session.simulates_self (observer.through ref) observer patches
      (Eq.refl s) a (ref.read a)
    rw [(applyAll_tells session (observer.through ref) patches s a).observer, hlike.events,
      (applyAll_tells session observer patches s (ref.read a)).observer]
    exact observer.tell_through ref _ a

/-- A session that holds version 1 and cannot store version 3. -/
def stuckAtThree : Memory where
  stored := some ⟨1, .unixEpoch⟩
  now := .unixEpoch
  fault := some ⟨.store, some 3, .rowNotFound "set-version"⟩

/-- The first, the second and the third of four patches are reported to the first part of a pair, and
the second part stays as it is. The third patch is left unfinished, and the fourth is not reached. -/
theorem applyAll_stopsCleanly_throughFirst :
    let patches : List Patch := [⟨1, "a"⟩, ⟨2, "b"⟩, ⟨3, "c"⟩, ⟨4, "d"⟩]
    (applyAll Memory.session ((Observer.recorder fun _ => true).through Reference.first) patches
        stuckAtThree ([.finished ⟨0, "start"⟩], "kept")).observer =
      ([.finished ⟨0, "start"⟩, .skipped ⟨1, "a"⟩, .started ⟨2, "b"⟩, .finished ⟨2, "b"⟩,
        .started ⟨3, "c"⟩], "kept") := by
  intro patches
  obtain ⟨-, -, hthrough⟩ := applyAll_stopsCleanly Memory.session (Observer.recorder fun _ => true)
    patches stuckAtThree [.finished ⟨0, "start"⟩]
  exact hthrough _ Reference.first ([.finished ⟨0, "start"⟩], "kept")

end QueryBook.Migration
