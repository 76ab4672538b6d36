import Mathlib.Data.List.Basic
import Mathlib.Data.List.Induction
import QueryBook.Migration.Memory
import QueryBook.Proofs.Migration.CleanStop

/-!
# Which patches run

The patches may be in any order and may have any versions. In a run in which no call fails, just
those patches run that are newer than the version at which the run starts and than every patch before
them in the list; the others are skipped (`applyAll_selected`). What a run has done at a phase is the
course of the patches that it has gone through (`Stands.progressed`).
-/

namespace QueryBook.Migration

/-! ## Patches newer than all before them -/

/-- The patch is newer than a version and than the patches that come earlier. -/
def Newest (version : Int64) (earlier : List Patch) (p : Patch) : Prop :=
  version < p.version ∧ ∀ q ∈ earlier, q.version < p.version

instance (version : Int64) (earlier : List Patch) (p : Patch) :
    Decidable (Newest version earlier p) :=
  inferInstanceAs (Decidable (_ ∧ _))

/-- The patches of a list that are newer than a version and than every patch before them in the
list. -/
def selected (version : Int64) (patches : List Patch) : List Patch :=
  (patches.zipIdx.filter fun (p, i) => Newest version (patches.take i) p).map (·.1)

/-- The greatest of a version and the versions of patches. -/
def greatest (version : Int64) (patches : List Patch) : Int64 :=
  patches.foldl (fun v p => max v p.version) version

theorem max_eq_of_le {a b : Int64} (h : a ≤ b) : max a b = b :=
  if_pos h

theorem max_eq_of_ge {a b : Int64} (h : b ≤ a) : max a b = a := by
  by_cases hle : a ≤ b
  · rw [max_eq_of_le hle, Int64.le_antisymm hle h]
  · exact if_neg hle

theorem max_lt_iff {a b c : Int64} : max a b < c ↔ a < c ∧ b < c := by
  by_cases h : a ≤ b
  · rw [max_eq_of_le h]
    exact ⟨fun hb => ⟨Int64.lt_of_le_of_lt h hb, hb⟩, fun hc => hc.2⟩
  · have hlt : b < a := Int64.not_le.1 h
    rw [max_eq_of_ge (Int64.le_of_lt hlt)]
    exact ⟨fun ha => ⟨ha, Int64.lt_trans hlt ha⟩, fun hc => hc.1⟩

theorem greatest_lt_iff {version v : Int64} {patches : List Patch} :
    greatest version patches < v ↔ version < v ∧ ∀ q ∈ patches, q.version < v := by
  induction patches generalizing version with
  | nil => simp [greatest]
  | cons p rest ih =>
    show greatest (max version p.version) rest < v ↔ _
    rw [ih, max_lt_iff, List.forall_mem_cons, and_assoc]

/-- A patch is newer than all before it just if it is newer than the greatest so far. -/
theorem newest_iff {version : Int64} {earlier : List Patch} {p : Patch} :
    Newest version earlier p ↔ greatest version earlier < p.version :=
  greatest_lt_iff.symm

theorem le_greatest (version : Int64) (patches : List Patch) :
    version ≤ greatest version patches ∧
      ∀ p ∈ patches, p.version ≤ greatest version patches := by
  refine ⟨?_, fun p hp => ?_⟩
  · refine Int64.not_lt.1 fun hlt => ?_
    exact Int64.lt_irrefl (greatest_lt_iff.1 hlt).1
  · refine Int64.not_lt.1 fun hlt => ?_
    exact Int64.lt_irrefl ((greatest_lt_iff.1 hlt).2 p hp)

theorem greatest_of_le {version : Int64} {patches : List Patch}
    (h : ∀ p ∈ patches, p.version ≤ version) : greatest version patches = version := by
  induction patches with
  | nil => rfl
  | cons p rest ih =>
    obtain ⟨hp, hrest⟩ := List.forall_mem_cons.1 h
    show greatest (max version p.version) rest = version
    rw [max_eq_of_ge hp]
    exact ih hrest

theorem greatest_append (version : Int64) (a b : List Patch) :
    greatest version (a ++ b) = greatest (greatest version a) b :=
  List.foldl_append

theorem greatest_concat (version : Int64) (patches : List Patch) (p : Patch) :
    greatest version (patches ++ [p]) = max (greatest version patches) p.version := by
  simp [greatest]

/-- What is due is known from the greatest version so far. -/
theorem due_concat (version : Int64) (patches : List Patch) (p : Patch) :
    due version (patches ++ [p]) =
      due version patches ++ if Newest version patches p then [p] else [] := by
  induction patches generalizing version with
  | nil =>
    by_cases h : p.version ≤ version
    · simp [due, Newest, h, Int64.not_lt.2 h]
    · simp [due, Newest, h, Int64.not_le.1 h]
  | cons q rest ih =>
    by_cases h : q.version ≤ version
    · have hnewest : Newest version (q :: rest) p ↔ Newest version rest p := by
        unfold Newest
        rw [List.forall_mem_cons]
        exact ⟨fun hp => ⟨hp.1, hp.2.2⟩, fun hp => ⟨hp.1, Int64.lt_of_le_of_lt h hp.1, hp.2⟩⟩
      simp only [List.cons_append, due, h, if_true, ih, hnewest]
    · have hlt : version < q.version := Int64.not_le.1 h
      have hnewest : Newest version (q :: rest) p ↔ Newest q.version rest p := by
        unfold Newest
        rw [List.forall_mem_cons]
        exact ⟨fun hp => hp.2, fun hp => ⟨Int64.lt_trans hlt hp.1, hp⟩⟩
      simp only [List.cons_append, due, h, if_false, ih, hnewest]

/-! ## The course of a run -/

/-- What happens to patches from a version on: each is applied if it is newer than all before it and
skipped otherwise. -/
def course (version : Int64) (patches : List Patch) : List Entry :=
  patches.zipIdx.flatMap fun (p, i) =>
    if Newest version (patches.take i) p then applied p else [.notice (.skipped p)]

theorem course_concat (version : Int64) (patches : List Patch) (p : Patch) :
    course version (patches ++ [p]) = course version patches ++
      if Newest version patches p then applied p else [.notice (.skipped p)] := by
  unfold course
  rw [List.zipIdx_append, List.flatMap_append, Nat.zero_add]
  congr 1
  · refine List.flatMap_congr fun x hx => ?_
    obtain ⟨q, i⟩ := x
    have hi : i < patches.length := by simpa using (List.mem_zipIdx hx).2.1
    simp only [List.take_append_of_le_length (Nat.le_of_lt hi)]
  · simp

/-- What happens to further patches is known from the greatest version so far. -/
theorem course_append (version : Int64) (a b : List Patch) :
    course version (a ++ b) = course version a ++ course (greatest version a) b := by
  induction b using List.reverseRecOn with
  | nil => simp [course]
  | append_singleton rest p ih =>
    rw [← List.append_assoc, course_concat, ih, course_concat, List.append_assoc]
    simp only [newest_iff, greatest_append]

theorem course_skip {version : Int64} {p : Patch} (h : p.version ≤ version) (rest : List Patch) :
    course version (p :: rest) = .notice (.skipped p) :: course version rest := by
  have hnot : ¬ Newest version [] p := fun hp => Int64.not_lt.2 h hp.1
  have hgreatest : greatest version [p] = version := greatest_of_le (by simpa using h)
  have hcourse := course_append version [p] rest
  rw [hgreatest] at hcourse
  simpa [course, hnot] using hcourse

theorem course_apply {version : Int64} {p : Patch} (h : version < p.version) (rest : List Patch) :
    course version (p :: rest) = applied p ++ course p.version rest := by
  have hnewest : Newest version [] p := ⟨h, by simp⟩
  have hgreatest : greatest version [p] = p.version := max_eq_of_le (Int64.le_of_lt h)
  have hcourse := course_append version [p] rest
  rw [hgreatest] at hcourse
  simpa [course, hnewest] using hcourse

/-- What is read off the entries of the patches that are applied. -/
theorem filterMap_course {β : Type} {f : Entry → Option β} {g : Patch → β}
    (hskipped : ∀ p, f (.notice (.skipped p)) = none)
    (happlied : ∀ p, (applied p).filterMap f = [g p]) (version : Int64) (patches : List Patch) :
    (course version patches).filterMap f = (selected version patches).map g := by
  unfold course selected
  generalize patches.zipIdx = indexed
  induction indexed with
  | nil => rfl
  | cons x rest ih =>
    obtain ⟨p, i⟩ := x
    rw [List.flatMap_cons, List.filterMap_append, ih]
    by_cases h : Newest version (patches.take i) p
    · simp [h, happlied]
    · simp [h, hskipped]

/-- The patch that a call runs. -/
def Entry.ran? : Entry → Option Patch
  | .step ⟨.run p, _⟩ => some p
  | _ => none

/-- The version that a call stores. -/
def Entry.stored? : Entry → Option Int64
  | .step ⟨.store version, _⟩ => some version
  | _ => none

theorem ran_course (version : Int64) (patches : List Patch) :
    (course version patches).filterMap Entry.ran? = selected version patches := by
  rw [filterMap_course (g := id) (fun _ => rfl) (fun _ => rfl), List.map_id]

theorem stored_course (version : Int64) (patches : List Patch) :
    (course version patches).filterMap Entry.stored? =
      (selected version patches).map (·.version) :=
  filterMap_course (fun _ => rfl) (fun _ => rfl) version patches

/-- What is due are the patches newer than all before them. -/
theorem due_eq_selected (version : Int64) (patches : List Patch) :
    due version patches = selected version patches := by
  rw [← ran_course]
  induction patches using List.reverseRecOn with
  | nil => rfl
  | append_singleton rest p ih =>
    rw [due_concat, course_concat, List.filterMap_append, ih]
    split <;> rfl

theorem pairwise_selected (version : Int64) (patches : List Patch) :
    (selected version patches).Pairwise fun a b => a.version < b.version := by
  rw [← due_eq_selected]
  exact pairwise_due version patches

/-! ## The course of a run that goes on -/

/-- The calls before the first patch, and the row that the session reports. -/
inductive Opening (patches : List Patch) (row : VersionRow) : List Entry → Prop where
  | found : Opening patches row [.step ⟨.ensure, .done⟩, .step ⟨.read, .row (some row)⟩]
  | seeded :
    Opening patches row [.step ⟨.ensure, .done⟩, .step ⟨.read, .row none⟩,
      .step ⟨.seed (headVersion patches), .row (some row)⟩]

/-- The patches have been gone through from the row that the session reported. -/
def Progress (patches done : List Patch) (entries : List Entry) (current : VersionRow) : Prop :=
  ∃ start opening, Opening patches start opening ∧
    entries = opening ++ course start.version done ∧
    current = { start with version := greatest start.version done }

variable {patches done rest : List Patch} {entries since : List Entry} {current : VersionRow}
variable {p : Patch} {phase : Phase}

theorem Opening.progress {opening : List Entry} (h : Opening patches current opening) :
    Progress patches [] opening current :=
  ⟨current, opening, h, (List.append_nil _).symm, rfl⟩

theorem Progress.skip (h : Progress patches done entries current)
    (hle : p.version ≤ current.version) :
    Progress patches (done ++ [p]) (entries ++ [.notice (.skipped p)]) current := by
  obtain ⟨start, opening, hopening, rfl, rfl⟩ := h
  have hnot : ¬ Newest start.version done p := fun hp =>
    Int64.not_lt.2 hle (greatest_lt_iff.2 hp)
  have hgreatest : greatest start.version (done ++ [p]) = greatest start.version done := by
    rw [greatest_concat]
    exact max_eq_of_ge hle
  refine ⟨start, opening, hopening, ?_, by rw [hgreatest]⟩
  rw [course_concat, if_neg hnot, List.append_assoc]

theorem Progress.apply (h : Progress patches done entries current)
    (hlt : current.version < p.version) :
    Progress patches (done ++ [p]) (entries ++ applied p)
      { current with version := p.version } := by
  obtain ⟨start, opening, hopening, rfl, rfl⟩ := h
  have hnewest : Newest start.version done p := greatest_lt_iff.1 hlt
  have hgreatest : greatest start.version (done ++ [p]) = p.version := by
    rw [greatest_concat]
    exact max_eq_of_le (Int64.le_of_lt hlt)
  refine ⟨start, opening, hopening, ?_, by rw [hgreatest]⟩
  rw [course_concat, if_pos hnewest, List.append_assoc]

/-- The run is at a patch that is newer than the current row, and this has happened since it has been
started. -/
def AtPatch (patches : List Patch) (current : VersionRow) (p : Patch) (rest : List Patch)
    (since entries : List Entry) : Prop :=
  ∃ done before, patches = done ++ p :: rest ∧ Progress patches done before current ∧
    current.version < p.version ∧ entries = before ++ since

theorem AtPatch.concat (h : AtPatch patches current p rest since entries) (entry : Entry) :
    AtPatch patches current p rest (since ++ [entry]) (entries ++ [entry]) := by
  obtain ⟨done, before, hpatches, hprogress, hlt, rfl⟩ := h
  exact ⟨done, before, hpatches, hprogress, hlt, List.append_assoc _ _ _⟩

/-- What has happened at a phase. -/
def Phase.Progressed (patches : List Patch) : Phase → List Entry → Prop
  | .opening, entries => entries = []
  | .tableReady, entries => entries = [.step ⟨.ensure, .done⟩]
  | .rowMissing, entries => entries = [.step ⟨.ensure, .done⟩, .step ⟨.read, .row none⟩]
  | .loop current rest, entries =>
    ∃ done, patches = done ++ rest ∧ Progress patches done entries current
  | .started current p rest, entries =>
    AtPatch patches current p rest [.notice (.started p)] entries
  | .ran current p rest, entries =>
    AtPatch patches current p rest [.notice (.started p), .step ⟨.run p, .done⟩] entries
  | .stored current p rest, entries =>
    ∃ row : VersionRow, current = { row with version := p.version } ∧
      AtPatch patches row p rest [.notice (.started p), .step ⟨.run p, .done⟩,
        .step ⟨.store p.version, .done⟩] entries

theorem Stands.progressed (h : Stands patches entries phase) : phase.Progressed patches entries := by
  induction h with
  | opening => rfl
  | next h hstep ih =>
    cases hstep with
    | ensured => cases ih; rfl
    | found row => cases ih; exact ⟨[], rfl, Opening.found.progress⟩
    | missing => cases ih; rfl
    | seeded row => cases ih; exact ⟨[], rfl, Opening.seeded.progress⟩
    | skipped hle =>
      obtain ⟨done, hpatches, hprogress⟩ := ih
      exact ⟨done ++ [_], by rw [hpatches, List.append_assoc]; rfl, hprogress.skip hle⟩
    | started hlt =>
      obtain ⟨done, hpatches, hprogress⟩ := ih
      exact ⟨done, _, hpatches, hprogress, hlt, rfl⟩
    | ran => exact ih.concat _
    | stored => exact ⟨_, rfl, ih.concat _⟩
    | finished =>
      obtain ⟨row, rfl, hat⟩ := ih
      obtain ⟨done, before, hpatches, hprogress, hlt, hentries⟩ := hat.concat (.notice (.finished _))
      exact ⟨done ++ [_], by rw [hpatches, List.append_assoc]; rfl,
        hentries ▸ hprogress.apply hlt⟩

/-! ## Whole runs -/

/-- The error of a call that has failed. -/
def Answer.error? : Answer → Option Error
  | .failed e => some e
  | _ => none

/-- Of any list of patches, in any order and with any versions, a run in which no call fails runs just
those that are newer than the version that the session reports and than every patch before them. It
stores the version of each of them after it has run, so that the stored versions ascend, skips the
others, and returns the row that the session reported with the greatest version of all. -/
theorem applyAll_selected {σ ω : Type} (session : Session σ) (observer : Observer ω)
    (patches : List Patch) (s : σ) (o : ω)
    (h : ∀ step ∈ session.steps observer patches s o, step.answer.error? = none) :
    ∃ entries start opening, Transcript session observer patches s o entries ∧
      Opening patches start opening ∧ entries = opening ++ course start.version patches ∧
      entries.filterMap Entry.ran? = selected start.version patches ∧
      entries.filterMap Entry.stored? = (selected start.version patches).map (·.version) ∧
      (entries.filterMap Entry.stored?).Pairwise (· < ·) ∧
      (applyAll session observer patches s o).result =
        .ok { start with version := greatest start.version patches } := by
  obtain ⟨entries, htranscript, hends⟩ := exists_transcript session observer patches s o
  have hnone : ∀ c e, .step ⟨c, .failed e⟩ ∉ entries := by
    intro c e hmem
    have hstep : (⟨c, .failed e⟩ : Step) ∈ session.steps observer patches s o := by
      rw [htranscript.steps]
      exact List.mem_filterMap.2 ⟨_, hmem, rfl⟩
    cases h _ hstep
  obtain ⟨row, hresult, hstands⟩ := hends.success hnone
  obtain ⟨done, hdone, start, opening, hopening, hentries, rfl⟩ := hstands.progressed
  rw [List.append_nil] at hdone
  subst hdone
  have hran : opening.filterMap Entry.ran? = [] := by cases hopening <;> rfl
  have hstored : opening.filterMap Entry.stored? = [] := by cases hopening <;> rfl
  have hversions : entries.filterMap Entry.stored? =
      (selected start.version patches).map (·.version) := by
    rw [hentries, List.filterMap_append, hstored, stored_course, List.nil_append]
  refine ⟨entries, start, opening, htranscript, hopening, hentries, ?_, hversions, ?_, hresult⟩
  · rw [hentries, List.filterMap_append, hran, ran_course, List.nil_append]
  · rw [hversions, List.pairwise_map]
    exact pairwise_selected _ _

/-- Patches out of order, two of them with the same version and one with a version below zero. -/
def shuffledPatches : List Patch :=
  [⟨2, "a"⟩, ⟨5, "b"⟩, ⟨5, "c"⟩, ⟨-1, "d"⟩, ⟨9, "e"⟩, ⟨7, "f"⟩]

/-- A session at version 3. -/
def atThree : Memory where
  stored := some ⟨3, .unixEpoch⟩
  now := .unixEpoch

theorem applyAll_shuffledPatches :
    (∀ step ∈ Memory.session.steps (Observer.recorder fun _ => true) shuffledPatches atThree [],
      step.answer.error? = none) ∧
    ∃ entries, Transcript Memory.session (Observer.recorder fun _ => true) shuffledPatches atThree []
        entries ∧
      entries.filterMap Entry.ran? = [⟨5, "b"⟩, ⟨9, "e"⟩] ∧
      entries.filterMap Entry.stored? = [5, 9] ∧
      (applyAll Memory.session (Observer.recorder fun _ => true) shuffledPatches atThree []).result =
        .ok ⟨9, .unixEpoch⟩ := by
  have hnone : ∀ step ∈ Memory.session.steps (Observer.recorder fun _ => true) shuffledPatches
      atThree [], step.answer.error? = none := by decide
  obtain ⟨entries, start, opening, htranscript, hopening, hentries, hran, hstored, -, hresult⟩ :=
    applyAll_selected Memory.session (Observer.recorder fun _ => true) shuffledPatches atThree [] hnone
  have hsteps := htranscript.steps
  rw [hentries] at hsteps
  cases hopening with
  | found =>
    cases hsteps
    exact ⟨hnone, entries, htranscript, hran, hstored, hresult⟩
  | seeded => cases hsteps

end QueryBook.Migration
