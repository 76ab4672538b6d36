import QueryBook.Proofs.Console.Line
import QueryBook.Proofs.Console.Machine
import QueryBook.Proofs.Migration.Failure
import QueryBook.Proofs.Migration.Status

/-!
# What applying patches prints is true

What is printed is made of whole lines: one for each patch that was looked at, and then what became
of the whole (`exists_told`). It is said of a patch that it failed just if running it or storing its
version did; it is said that everything was rolled back just if something but the commit failed, and
then the contents are those before; and the patches that are said to be applied, their number and
the version that is printed after a success are those of what has been committed
(`migrate_truthful`).
-/

namespace QueryBook.Console

open Migration (Session Observer applyFrom due)
open Migrator (applyThrough failureThrough)
open Text (IsWord)
open Line (Unbroken)

/-- What is printed, line by line. -/
def Report.printed (r : Report) : List String :=
  (Text.lines r.out.toList).map String.ofList

/-- The text of lines that are printed one after another. -/
def Line.texts (told : List Line) : String :=
  String.join (told.map fun line => line.text ++ "\n")

/-! ## The patches -/

section

variable {σ : Type} (session : Session σ)

/-- What is said of patches that are applied one after another, starting from a version. -/
def patchLines : Int64 → List Patch → σ → List Line
  | _, [], _ => []
  | version, p :: rest, s =>
    if p.version ≤ version then .skipped p.name :: patchLines version rest s
    else
      match session.applyPatch p s with
      | (.error _, _) => [.failed p.name]
      | (.ok (), s) => .applied p.name :: patchLines p.version rest s

theorem mem_patchLines_failed (version : Int64) (patches : List Patch) (s : σ) (name : String) :
    .failed name ∈ patchLines session version patches s ↔
      ∃ p e, (session.applyPatches (due version patches) s).1 = some (p, e) ∧ p.name = name := by
  induction patches generalizing version s with
  | nil => simp [patchLines, due, Session.applyPatches]
  | cons p rest ih =>
    unfold patchLines due
    split
    · simpa using ih version s
    · unfold Session.applyPatches
      rcases session.applyPatch p s with ⟨e | u, s₁⟩
      · simp [eq_comm]
      · simpa using ih p.version s₁

theorem mem_patchLines_applied (version : Int64) (patches : List Patch) (s : σ) (name : String)
    (h : (session.applyPatches (due version patches) s).1 = none) :
    .applied name ∈ patchLines session version patches s ↔
      ∃ p ∈ due version patches, p.name = name := by
  induction patches generalizing version s with
  | nil => simp [patchLines, due]
  | cons p rest ih =>
    unfold due at h
    unfold patchLines due
    split
    · next hle =>
      rw [if_pos hle] at h
      simpa using ih version s h
    · next hlt =>
      rw [if_neg hlt] at h
      unfold Session.applyPatches at h
      rcases happly : session.applyPatch p s with ⟨e | u, s₁⟩
      · rw [happly] at h
        cases h
      · rw [happly] at h
        simpa [eq_comm] using or_congr_right (ih p.version s₁ h)

theorem failed_patchLines (version : Int64) (patches : List Patch) (s : σ) :
    ((patchLines session version patches s).filter Line.isFailed).length ≤ 1 := by
  induction patches generalizing version s with
  | nil => simp [patchLines]
  | cons p rest ih =>
    unfold patchLines
    split
    · simpa [Line.isFailed] using ih version s
    · rcases session.applyPatch p s with ⟨e | u, s₁⟩
      · exact Nat.le_refl 1
      · simpa [Line.isFailed] using ih p.version s₁

/-- The lines are about the patches in their order, up to the one that fails. -/
theorem names_patchLines (version : Int64) (patches : List Patch) (s : σ) :
    (patchLines session version patches s).map Line.name? <+: patches.map (some ·.name) := by
  induction patches generalizing version s with
  | nil => simp [patchLines]
  | cons p rest ih =>
    unfold patchLines
    split
    · simpa [Line.name?] using ih version s
    · rcases session.applyPatch p s with ⟨e | u, s₁⟩
      · simp [Line.name?]
      · simpa [Line.name?] using ih p.version s₁

end

/-! ## The observer -/

theorem Line.texts_cons (line : Line) (told : List Line) :
    texts (line :: told) = line.text ++ "\n" ++ texts told := by
  unfold texts
  rw [List.map_cons, String.join_cons]

theorem Line.texts_append (a b : List Line) : texts (a ++ b) = texts a ++ texts b := by
  unfold texts
  rw [List.map_append, String.join_append]

/-- What ends the line of a patch that is not finished. -/
def unfinished (inProgress : Bool) : String :=
  if inProgress then red "failed" ++ "\n" else ""

/-- What has been printed, with the line that is still open ended. -/
def Progress.ended (o : Progress) : String :=
  o.out ++ unfinished o.inProgress

theorem out_skipped (p : Patch) (o : Progress) :
    (Progress.observer (.skipped p) o).out = o.out ++ ((Line.skipped p.name).text ++ "\n") := by
  unfold Line.text
  simp [Progress.observer, String.append_assoc]

theorem ended_started (p : Patch) (o : Progress) :
    (Progress.observer (.started p) o).ended = o.out ++ ((Line.failed p.name).text ++ "\n") := by
  unfold Line.text
  simp [Progress.observer, Progress.ended, unfinished, String.append_assoc]

theorem out_finished (p : Patch) (o : Progress) :
    (Progress.observer (.finished p) (Progress.observer (.started p) o)).out =
      o.out ++ ((Line.applied p.name).text ++ "\n") := by
  unfold Line.text
  simp [Progress.observer, String.append_assoc]

/-- What is printed in the loop are whole lines, but for that of a patch that fails. -/
theorem applyFrom_progress {σ : Type} (session : Session σ) (current : VersionRow)
    (patches : List Patch) (s : σ) (o : Progress) (ho : o.inProgress = false) :
    (applyFrom session Progress.observer current s o patches).observer.ended =
        o.out ++ Line.texts (patchLines session current.version patches s) ∧
      (applyFrom session Progress.observer current s o patches).observer.inProgress =
        (session.applyPatches (due current.version patches) s).1.isSome := by
  induction patches generalizing current s o with
  | nil => exact ⟨by simp [applyFrom, Progress.ended, unfinished, ho, patchLines, Line.texts], ho⟩
  | cons p rest ih =>
    unfold applyFrom patchLines due
    split
    · rw [Migration.Run.after_observer, Line.texts_cons, ← String.append_assoc, ← out_skipped p o]
      exact ih current s _ ho
    · unfold Session.applyPatches Session.applyPatch
      rcases session.runPatch p s with ⟨e | u, s₁⟩
      · exact ⟨ended_started p o, rfl⟩
      dsimp only
      rcases session.storeVersion p.version s₁ with ⟨e | u, s₂⟩
      · exact ⟨ended_started p o, rfl⟩
      · dsimp only
        rw [Migration.Run.after_observer, Line.texts_cons, ← String.append_assoc,
          ← out_finished p o]
        exact ih { current with version := p.version } s₂ _ rfl

/-- What is said of the patches in a whole attempt. -/
theorem applyThrough_progress (session : Session Database) (patches : List Patch) (db : Database) :
    ∃ told : List Line,
      (applyThrough session Progress.observer patches {} db).observer.ended = Line.texts told ∧
      ((applyThrough session Progress.observer patches {} db).observer.inProgress = true ↔
        ∃ p e, failureThrough session patches db = some (.patch p, e)) ∧
      (∀ name, .failed name ∈ told ↔
        ∃ p e, failureThrough session patches db = some (.patch p, e) ∧ p.name = name) ∧
      (told.filter Line.isFailed).length ≤ 1 ∧
      told.map Line.name? <+: patches.map (some ·.name) ∧
      (failureThrough session patches db = none → ∃ start current db₁,
        db.beginTransaction = (.ok (), start) ∧
        session.findRow patches start = (.ok current, db₁) ∧
        ∀ name, .applied name ∈ told ↔ ∃ p ∈ due current.version patches, p.name = name) := by
  rcases Migrator.applyThrough_observer session patches Progress.observer {} db with
    ⟨hobserver, e, hfailure⟩ | ⟨start, current, db₁, hbegin, hrow, hobserver, hfailure⟩
  · rw [hobserver]
    exact ⟨[], rfl, by simp [hfailure], by simp [hfailure], by simp, List.nil_prefix,
      by simp [hfailure]⟩
  · obtain ⟨hended, hprogress⟩ := applyFrom_progress session current patches db₁ {} rfl
    rw [hobserver]
    refine ⟨patchLines session current.version patches db₁, ?_, ?_, fun name => ?_,
      failed_patchLines session _ _ _, names_patchLines session _ _ _,
      fun hnone => ⟨start, current, db₁, hbegin, hrow, fun name => ?_⟩⟩
    · rw [hended]
      exact String.empty_append
    · rw [hprogress]
      simp only [hfailure]
      rw [Option.isSome_iff_exists]
      exact ⟨fun ⟨f, hf⟩ => ⟨f.1, f.2, hf⟩, fun ⟨p, e, hf⟩ => ⟨(p, e), hf⟩⟩
    · simp only [hfailure]
      exact mem_patchLines_failed session _ _ _ name
    · refine mem_patchLines_applied session _ _ _ name (Option.eq_none_iff_forall_ne_some.2 ?_)
      rintro ⟨p, e⟩ hfails
      rw [← hfailure, hnone] at hfails
      cases hfails

/-! ## The end -/

/-- What is said at the end of an attempt. -/
def closing (applied : Nat) : Except Error VersionRow → List Line
  | .ok row =>
    [if applied = 0 then .nothingPending else .appliedCount applied, .version row.version]
  | .error e => [if isCommitFailure e then .commitFailed else .rolledBack]

theorem successText_eq (applied : Nat) (row : VersionRow) :
    successText applied row = Line.texts (closing applied (.ok row)) := by
  have hfeed : "\nDatabase version: " = "\n" ++ "Database version: " := by decide
  unfold successText closing
  by_cases h : applied = 0
  · simp only [h, if_true, Line.texts, List.map_cons, List.map_nil, String.join_cons,
      String.join_nil, Line.text_nothingPending, Line.text_version, toString, hfeed,
      String.append_assoc, String.append_empty]
  · simp only [h, if_false, Line.texts, List.map_cons, List.map_nil, String.join_cons,
      String.join_nil, Line.text_appliedCount, Line.text_version, toString, hfeed,
      String.append_assoc, String.append_empty]

theorem failureText_eq (inProgress : Bool) (e : Error) (applied : Nat) :
    failureText inProgress e = unfinished inProgress ++ Line.texts (closing applied (.error e)) := by
  unfold failureText closing unfinished
  by_cases h : isCommitFailure e = true
  · simp [h, Line.texts, String.append_assoc]
  · simp [h, Line.texts, String.append_assoc]

theorem name?_closing {applied : Nat} {result : Except Error VersionRow} {line : Line}
    (h : line ∈ closing applied result) : line.name? = none := by
  unfold closing at h
  split at h
  · simp only [List.mem_cons, List.not_mem_nil, or_false] at h
    rcases h with rfl | rfl
    · split <;> rfl
    · rfl
  · cases List.mem_singleton.1 h
    split <;> rfl

theorem isCommitFailure_iff (e : Error) :
    isCommitFailure e = true ↔ ∃ cause, e = .transaction .commit cause := by
  unfold isCommitFailure
  split <;> simp_all

theorem rolledBack_mem_closing {applied : Nat} {result : Except Error VersionRow} :
    .rolledBack ∈ closing applied result ↔ ∃ e, result = .error e ∧ isCommitFailure e = false := by
  cases result with
  | ok row => by_cases h : applied = 0 <;> simp [closing, h]
  | error e => by_cases h : isCommitFailure e = true <;> simp [closing, h]

theorem appliedCount_mem_closing {n applied : Nat} {row : VersionRow} :
    .appliedCount n ∈ closing applied (.ok row) ↔ n = applied ∧ n ≠ 0 := by
  by_cases h : applied = 0
  · simp [closing, h]
  · simp only [closing, h, if_false, List.mem_cons, Line.appliedCount.injEq, reduceCtorEq,
      List.not_mem_nil, or_false]
    omega

theorem nothingPending_mem_closing {applied : Nat} {row : VersionRow} :
    .nothingPending ∈ closing applied (.ok row) ↔ applied = 0 := by
  by_cases h : applied = 0 <;> simp [closing, h]

/-- What is said after a success is said after nothing else. -/
theorem exists_eq_ok_of_mem_closing {applied : Nat} {result : Except Error VersionRow} {line : Line}
    (h : line ∈ closing applied result) (hcommit : line ≠ .commitFailed)
    (hrolled : line ≠ .rolledBack) : ∃ row, result = .ok row := by
  cases result with
  | ok row => exact ⟨row, rfl⟩
  | error e =>
    cases List.mem_singleton.1 h
    split at hcommit
    · exact absurd rfl hcommit
    · next hother =>
      rw [if_neg hother] at hrolled
      exact absurd rfl hrolled

theorem version_mem_closing {applied : Nat} {v : Int64} {row : VersionRow} :
    .version v ∈ closing applied (.ok row) ↔ v = row.version := by
  by_cases h : applied = 0 <;> simp [closing, h]

/-- As many patches are counted as were due. -/
theorem apply_eq_ok_applied {m : Migrator} {db : Database} (hspares : db.SparesVersions)
    {row : VersionRow} (h : (m.apply Progress.observer {} db).result = .ok row) :
    (m.apply Progress.observer {} db).observer.applied = (m.due db.contents).length := by
  obtain ⟨start, db', current, -, -, hversion, hok, -, hobserver⟩ :=
    Migrator.apply_eq_ok_loop hspares h
  have hloop : Migration.LoopInvariant m.session Progress.observer m.patches
      fun done _ _ o => o.applied = done.length := by
    constructor
    · intro done now s o p _ hdone _
      exact hdone
    · intro done now s s₁ s₂ o p _ hdone _ _ _
      simp [Progress.observer, hdone]
  have hstart : ({} : Progress).applied = ([] : List Patch).length := rfl
  have happlied := Migration.applyFrom_ok hloop hstart hok
  rw [hobserver, happlied, hversion]
  rfl

/-! ## The whole of it -/

theorem Line.mem_map_text {line : Line} {told : List Line} :
    line.text ∈ told.map Line.text ↔ line ∈ told := by
  simp [List.mem_map, Line.text_inj]

section

variable {patches : List Patch} {told : List Line}

theorem exists_of_mem_told (htold : told.map Line.name? <+: patches.map (some ·.name)) {line : Line}
    (hline : line ∈ told) : ∃ p ∈ patches, line.name? = some p.name := by
  obtain ⟨p, hp, hname⟩ := List.mem_map.1 (htold.subset (List.mem_map_of_mem hline))
  exact ⟨p, hp, hname.symm⟩

/-- A line that is not about a patch is printed just if it stands at the end. -/
theorem mem_append_closing_iff (htold : told.map Line.name? <+: patches.map (some ·.name))
    {line : Line} (hline : line.name? = none) {rest : List Line} :
    line.text ∈ (told ++ rest).map Line.text ↔ line ∈ rest := by
  rw [Line.mem_map_text, List.mem_append]
  refine ⟨fun h => h.resolve_left fun htold' => ?_, .inr⟩
  obtain ⟨p, -, hname⟩ := exists_of_mem_told htold htold'
  rw [hline] at hname
  cases hname

/-- A line about a patch is not printed at the end. -/
theorem mem_told_append_iff {line : Line} {name : String} (hline : line.name? = some name)
    {applied : Nat} {result : Except Error VersionRow} :
    line.text ∈ (told ++ closing applied result).map Line.text ↔ line ∈ told := by
  rw [Line.mem_map_text, List.mem_append]
  refine ⟨fun h => h.resolve_right fun hclosing => ?_, .inl⟩
  cases hline.symm.trans (name?_closing hclosing)

/-- Lines about patches whose names are words and lines about the whole are read back. -/
theorem printed_eq (hpatches : ∀ p ∈ patches, IsWord p.name.toList)
    (htold : told.map Line.name? <+: patches.map (some ·.name)) {applied : Nat}
    {result : Except Error VersionRow} {r : Report}
    (hout : r.out = Line.texts (told ++ closing applied result)) :
    r.printed = (told ++ closing applied result).map Line.text := by
  have hunbroken : ∀ line ∈ told ++ closing applied result, Unbroken line.text := by
    intro line hline
    refine Line.unbroken_text fun name hname => ?_
    rcases List.mem_append.1 hline with hline | hline
    · obtain ⟨p, hp, hp'⟩ := exists_of_mem_told htold hline
      rw [hp'] at hname
      cases hname
      exact hpatches p hp
    · rw [name?_closing hline] at hname
      cases hname
  unfold Report.printed
  rw [hout, Line.texts, Line.lines_join hunbroken, List.map_map]
  exact List.map_congr_left fun line _ => String.ofList_toList

end

/-- What the command leaves behind, once there is something to apply. -/
theorem migrate_eq {m : Machine} {migrator : Migrator} {db : Database}
    (h : m.prepare = .ok (migrator, db))
    (hdone : ∀ row, (migrator.apply Progress.observer {} db).result = .ok row →
      (migrator.apply Progress.observer {} db).observer.inProgress = false) :
    let applied := migrator.apply Progress.observer {} db
    (migrate m).out = applied.observer.ended ++
        Line.texts (closing applied.observer.applied applied.result) ∧
      (migrate m).database = some applied.database.disconnect ∧
      (migrate m).failure = match applied.result with
        | .ok _ => none
        | .error e => some (.error e) := by
  intro applied
  unfold migrate
  rw [h]
  dsimp only
  change ∀ row, applied.result = .ok row → applied.observer.inProgress = false at hdone
  cases hresult : applied.result with
  | ok row =>
    refine ⟨?_, rfl, rfl⟩
    show applied.observer.out ++ successText applied.observer.applied row = _
    rw [← successText_eq, Progress.ended, hdone row hresult]
    simp [unfinished]
  | error e =>
    refine ⟨?_, rfl, rfl⟩
    show applied.observer.out ++ failureText applied.observer.inProgress e = _
    rw [Progress.ended, String.append_assoc, ← failureText_eq]

/-- What is printed, line by line. -/
theorem exists_told {m : Machine} {migrator : Migrator} {db : Database}
    (h : m.prepare = .ok (migrator, db)) :
    ∃ told : List Line,
      (migrate m).printed =
        (told ++ closing (migrator.apply Progress.observer {} db).observer.applied
          (migrator.apply Progress.observer {} db).result).map Line.text ∧
      told.map Line.name? <+: migrator.patches.map (some ·.name) ∧
      (told.filter Line.isFailed).length ≤ 1 ∧
      (∀ name, .failed name ∈ told ↔
        ∃ p e, migrator.failure? db = some (.patch p, e) ∧ p.name = name) ∧
      (migrator.failure? db = none → db.SparesVersions → ∀ name, .applied name ∈ told ↔
        ∃ p ∈ migrator.due db.contents, p.name = name) ∧
      (migrate m).database =
        some (migrator.apply Progress.observer {} db).database.disconnect ∧
      (migrate m).failure = match (migrator.apply Progress.observer {} db).result with
        | .ok _ => none
        | .error e => some (.error e) := by
  obtain ⟨told, hended, hprogress, hfailed, honce, hnames, happlied⟩ :=
    applyThrough_progress migrator.session migrator.patches db
  -- after a success no patch is in progress
  have hdone : ∀ row, (migrator.apply Progress.observer {} db).result = .ok row →
      (migrator.apply Progress.observer {} db).observer.inProgress = false := by
    intro row hrow
    rw [Bool.eq_false_iff]
    intro hopen
    obtain ⟨p, e, hfailure⟩ := hprogress.1 hopen
    cases hfailure.symm.trans (Migrator.exists_apply_eq_ok_iff.1 ⟨row, hrow⟩)
  obtain ⟨hout, hdatabase, hfailure⟩ := migrate_eq h hdone
  refine ⟨told, printed_eq (Machine.isWord_of_prepare h) hnames ?_, hnames, honce, hfailed,
    fun hnone hspares => ?_, hdatabase, hfailure⟩
  · rw [hout, Line.texts_append, ← hended]
    rfl
  · obtain ⟨start, current, db₁, hbegin, hrow, happlied⟩ := happlied hnone
    have hopens := Database.opens_of_beginTransaction hbegin
    rw [Migrator.version_of_findRow (hopens.sparesVersions hspares) hrow, hopens.contents]
      at happlied
    exact happlied

section

variable {m : Machine} {migrator : Migrator} {db : Database} (h : m.prepare = .ok (migrator, db))

include h

/-- A line that is not about a patch is printed just if it is said at the end. -/
theorem mem_printed_iff {line : Line} (hline : line.name? = none) :
    line.text ∈ (migrate m).printed ↔
      line ∈ closing (migrator.apply Progress.observer {} db).observer.applied
        (migrator.apply Progress.observer {} db).result := by
  obtain ⟨told, hprinted, hnames, -⟩ := exists_told h
  rw [hprinted, mem_append_closing_iff hnames hline]

theorem failed_mem_printed (name : String) :
    (Line.failed name).text ∈ (migrate m).printed ↔
      ∃ p e, migrator.failure? db = some (.patch p, e) ∧ p.name = name := by
  obtain ⟨told, hprinted, -, -, hfailed, -⟩ := exists_told h
  rw [hprinted, mem_told_append_iff rfl, hfailed name]

theorem applied_mem_printed (hfails : migrator.failure? db = none) (hspares : db.SparesVersions)
    (name : String) : (Line.applied name).text ∈ (migrate m).printed ↔
      ∃ p ∈ migrator.due db.contents, p.name = name := by
  obtain ⟨told, hprinted, -, -, -, happlied, -⟩ := exists_told h
  rw [hprinted, mem_told_append_iff rfl, happlied hfails hspares name]

theorem rolledBack_mem_printed :
    Line.rolledBack.text ∈ (migrate m).printed ↔
      ∃ stage e, migrator.failure? db = some (stage, e) ∧ stage ≠ .commit := by
  rw [mem_printed_iff h rfl, rolledBack_mem_closing]
  simp only [Migrator.apply_eq_error_iff, ← Bool.not_eq_true, isCommitFailure_iff]
  constructor
  · rintro ⟨e, ⟨stage, hfails⟩, hother⟩
    exact ⟨stage, e, hfails, fun hstage => hother ((Migrator.commit_iff_of_failure? hfails).2 hstage)⟩
  · rintro ⟨stage, e, hfails, hstage⟩
    exact ⟨e, ⟨stage, hfails⟩, fun hcommit =>
      hstage ((Migrator.commit_iff_of_failure? hfails).1 hcommit)⟩

theorem contents_eq_of_rolledBack (hrolled : Line.rolledBack.text ∈ (migrate m).printed)
    (hopen : db.snapshot = none) :
    (migrator.apply Progress.observer {} db).database.disconnect.contents = db.contents := by
  rw [mem_printed_iff h rfl, rolledBack_mem_closing] at hrolled
  obtain ⟨e, herror, -⟩ := hrolled
  exact Migrator.contents_disconnect_of_eq_error migrator.session_preserves_sends hopen herror

/-- If nothing fails, what is printed is what has been committed. -/
theorem committed_of_failure?_eq_none (hfails : migrator.failure? db = none)
    (hspares : db.SparesVersions) (hm : migrator.SparesVersions) :
    ∃ row, migrator.Committed db (migrator.apply Progress.observer {} db).database.disconnect row ∧
      (∀ name, (Line.applied name).text ∈ (migrate m).printed ↔
        ∃ p ∈ migrator.due db.contents, p.name = name) ∧
      (∀ n, (Line.appliedCount n).text ∈ (migrate m).printed ↔
        n = (migrator.due db.contents).length ∧ n ≠ 0) ∧
      (Line.nothingPending.text ∈ (migrate m).printed ↔ migrator.due db.contents = []) ∧
      ∀ v, (Line.version v).text ∈ (migrate m).printed ↔ v = row.version := by
  obtain ⟨row, hrow⟩ := Migrator.exists_apply_eq_ok_iff.2 hfails
  have hcommitted := Migrator.apply_eq_ok hspares hm hrow
  have happlied := apply_eq_ok_applied hspares hrow
  rw [Database.disconnect_eq_self hcommitted.closed]
  refine ⟨row, hcommitted, applied_mem_printed h hfails hspares, fun n => ?_, ?_, fun v => ?_⟩
  · rw [mem_printed_iff h rfl, hrow, happlied, appliedCount_mem_closing]
  · rw [mem_printed_iff h rfl, hrow, happlied, nothingPending_mem_closing, List.length_eq_zero_iff]
  · rw [mem_printed_iff h rfl, hrow, version_mem_closing]

theorem failure?_eq_none_of_mem_printed (line : Line) (hmem : line.text ∈ (migrate m).printed)
    (hline : line.name? = none) (hcommit : line ≠ .commitFailed) (hrolled : line ≠ .rolledBack) :
    migrator.failure? db = none :=
  Migrator.exists_apply_eq_ok_iff.1
    (exists_eq_ok_of_mem_closing ((mem_printed_iff h hline).1 hmem) hcommit hrolled)

theorem failure_migrate : (migrate m).failure = (migrator.failure? db).map fun f => .error f.2 := by
  obtain ⟨-, -, -, -, -, -, -, hfailure⟩ := exists_told h
  rw [hfailure]
  rcases hfails : migrator.failure? db with _ | ⟨stage, e⟩
  · obtain ⟨row, hrow⟩ := Migrator.exists_apply_eq_ok_iff.2 hfails
    rw [hrow]
    rfl
  · rw [Migrator.apply_eq_error_iff.2 ⟨stage, hfails⟩]
    rfl

end

/-- What a command prints about the patches that it applies is true of the database before it and
after it. -/
structure Truthful (r : Report) (m : Migrator) (before after : Database) : Prop where
  /-- What is printed are whole lines: first those of patches in their order, each completed by what
  became of the patch, and then those about the whole. At most one patch has failed. -/
  lines : ∃ told rest : List Line, r.printed = (told ++ rest).map Line.text ∧
    told.map Line.name? <+: m.patches.map (some ·.name) ∧ (∀ line ∈ rest, line.name? = none) ∧
    (told.filter Line.isFailed).length ≤ 1
  /-- A patch is said to have failed just if running it or storing its version did. -/
  failed : ∀ name, (Line.failed name).text ∈ r.printed ↔
    ∃ p e, m.failure? before = some (.patch p, e) ∧ p.name = name
  /-- All is said to be rolled back just if something but the commit failed. -/
  rolledBack : Line.rolledBack.text ∈ r.printed ↔
    ∃ stage e, m.failure? before = some (stage, e) ∧ stage ≠ .commit
  /-- What is said to be rolled back is. -/
  unchanged : Line.rolledBack.text ∈ r.printed → before.snapshot = none →
    after.contents = before.contents
  /-- If nothing fails, the patches that were due are committed; just these are said to be applied,
  and their number, if there are any, and the version that is now stored are printed. -/
  committed : m.failure? before = none → before.SparesVersions → m.SparesVersions →
    ∃ row, m.Committed before after row ∧
      (∀ name, (Line.applied name).text ∈ r.printed ↔
        ∃ p ∈ m.due before.contents, p.name = name) ∧
      (∀ n, (Line.appliedCount n).text ∈ r.printed ↔
        n = (m.due before.contents).length ∧ n ≠ 0) ∧
      (Line.nothingPending.text ∈ r.printed ↔ m.due before.contents = []) ∧
      ∀ v, (Line.version v).text ∈ r.printed ↔ v = row.version
  /-- Otherwise neither a number nor a version is printed. -/
  success : (∃ n, (Line.appliedCount n).text ∈ r.printed) ∨ Line.nothingPending.text ∈ r.printed ∨
    (∃ v, (Line.version v).text ∈ r.printed) → m.failure? before = none
  /-- The command fails just if something fails. -/
  failure : r.failure = (m.failure? before).map fun f => .error f.2

/-- Once there is something to apply and a database to apply it to, what is printed is true, whatever
fails. The database before is that of the server: connecting has only asked questions. -/
theorem migrate_truthful {m : Machine} {migrator : Migrator} {db : Database}
    (h : m.prepare = .ok (migrator, db)) :
    ∃ e after, m.server = some e ∧ e.database.Asked db ∧ (migrate m).database = some after ∧
      Truthful (migrate m) migrator db after := by
  obtain ⟨e, hserver, hasked⟩ := Machine.exists_of_prepare h
  obtain ⟨told, hprinted, hnames, honce, -, -, hdatabase, -⟩ := exists_told h
  refine ⟨e, _, hserver, hasked, hdatabase, ?_⟩
  constructor
  case lines => exact ⟨told, _, hprinted, hnames, fun line hline => name?_closing hline, honce⟩
  case failed => exact failed_mem_printed h
  case rolledBack => exact rolledBack_mem_printed h
  case unchanged => exact contents_eq_of_rolledBack h
  case committed => exact committed_of_failure?_eq_none h
  case success =>
    rintro (⟨n, hn⟩ | hn | ⟨v, hv⟩)
    · exact failure?_eq_none_of_mem_printed h (.appliedCount n) hn rfl nofun nofun
    · exact failure?_eq_none_of_mem_printed h .nothingPending hn rfl nofun nofun
    · exact failure?_eq_none_of_mem_printed h (.version v) hv rfl nofun nofun
  case failure => exact failure_migrate h

/-- The two patches as a source. -/
def patchSource : Source where
  name := "patches.sql"
  text := "-- name: patch-1-users\nCREATE TABLE users (id BIGINT);\n" ++
    "-- name: patch-2-mail\nALTER TABLE users ADD mail TEXT;\n"

/-- The source, and a server on every socket that holds a database. -/
def machineOver (db : Database) : Machine where
  settings := ⟨some "host=/run", "sql", "patch-"⟩
  sources := .ok [patchSource]
  server := some ⟨fun _ => true, db⟩

theorem queries_patchSource : patchSource.queries =
    .ok [⟨"patch-1-users", "CREATE TABLE users (id BIGINT)", []⟩,
      ⟨"patch-2-mail", "ALTER TABLE users ADD mail TEXT", []⟩] := by
  refine Source.eq_ok_of_gives ?_
  unfold Source.queries patchSource
  simp only [String.toList_append]
  repeat rw [Text.toList_of_eq_ofList rfl]
  decide +kernel

theorem prepare_machineOver (db : Database) :
    (machineOver db).prepare = .ok (Migrator.userPatches, db) := by
  have hconnect : Connection.connect "host=/run" (some ⟨fun _ => true, db⟩) = .ok db := by cbv
  have hload : (∅ : Catalog).load [patchSource] = .ok Migrator.userPatches.catalog :=
    Catalog.load_singleton ∅ queries_patchSource
  have hcatalog : (machineOver db).catalog = .ok Migrator.userPatches.catalog := hload
  have hmigrator : (machineOver db).migrator = .ok Migrator.userPatches := by
    have hprefix : (machineOver db).settings.patchPrefix = "patch-" := rfl
    unfold Machine.migrator
    rw [hcatalog, hprefix]
    exact Migrator.ofCatalog_userPatches
  have hfound : (machineOver db).connect = .ok db := by
    unfold Machine.connect machineOver
    dsimp only
    rw [hconnect]
  unfold Machine.prepare
  rw [hmigrator, hfound]
  rfl

/-- The version of the second patch cannot be stored, or it is applied. -/
theorem migrate_machineOver :
    ((machineOver Migrator.storeFails).prepare =
        .ok (Migrator.userPatches, Migrator.storeFails) ∧
      (∃ e, Migrator.userPatches.failure? Migrator.storeFails =
        some (.patch ⟨2, "patch-2-mail"⟩, e)) ∧
      (Line.failed "patch-2-mail").text ∈ (migrate (machineOver Migrator.storeFails)).printed ∧
      Line.rolledBack.text ∈ (migrate (machineOver Migrator.storeFails)).printed ∧
      ∃ after, (migrate (machineOver Migrator.storeFails)).database = some after ∧
        after.contents = Migrator.storeFails.contents) ∧
    ((machineOver (Migrator.atVersionOne [])).prepare =
        .ok (Migrator.userPatches, Migrator.atVersionOne []) ∧
      Migrator.userPatches.failure? (Migrator.atVersionOne []) = none ∧
      (Line.appliedCount 1).text ∈ (migrate (machineOver (Migrator.atVersionOne []))).printed) := by
  have hfails : Migrator.userPatches.failure? Migrator.storeFails =
      some (.patch ⟨2, "patch-2-mail"⟩, .execute "quire.update-db-version"
        (.server { sqlState := "53100", message := "disk full" })) := by
    decide +kernel
  have hnone : Migrator.userPatches.failure? (Migrator.atVersionOne []) = none := by
    decide +kernel
  have hspares : (Migrator.atVersionOne []).SparesVersions := by decide +kernel
  have hpatches : Migrator.userPatches.SparesVersions := by decide +kernel
  have hdue : (Migrator.userPatches.due (Migrator.atVersionOne []).contents).length = 1 := by
    decide +kernel
  refine ⟨⟨prepare_machineOver _, ⟨_, hfails⟩, ?_⟩, prepare_machineOver _, hnone, ?_⟩
  · obtain ⟨-, after, -, -, hafter, htrue⟩ :=
      migrate_truthful (prepare_machineOver Migrator.storeFails)
    have hrolled := htrue.rolledBack.2 ⟨_, _, hfails, by decide⟩
    exact ⟨(htrue.failed _).2 ⟨_, _, hfails, rfl⟩, hrolled, after, hafter,
      htrue.unchanged hrolled rfl⟩
  · obtain ⟨-, after, -, -, -, htrue⟩ :=
      migrate_truthful (prepare_machineOver (Migrator.atVersionOne []))
    obtain ⟨row, -, -, hcount, -⟩ := htrue.committed hnone hspares hpatches
    exact (hcount 1).2 ⟨hdue.symm, by decide⟩

end QueryBook.Console
