import QueryBook.Console.Report
import QueryBook.Proofs.Text.Decimal
import QueryBook.Proofs.Text.Lines
import QueryBook.Proofs.Text.Spacing

/-!
# Lines of what applying patches prints

Everything that is printed when patches are applied is made of a few kinds of lines. Lines are told
apart by their texts (`Line.text_inj`), and a text that is made of lines is read back line by line
(`lines_join`), so that what is printed can be stated of lines.
-/

namespace QueryBook.Console

open Text (IsWord isBlank)

/-- A line of what applying patches prints. -/
inductive Line where
  | skipped (name : String)
  | applied (name : String)
  | failed (name : String)
  | rolledBack
  | commitFailed
  | nothingPending
  | appliedCount (n : Nat)
  | version (v : Int64)
  deriving DecidableEq, Repr

namespace Line

def text : Line → String
  | .skipped name => "  " ++ dim "Skipped" ++ " " ++ dim name
  | .applied name => "  " ++ cyan "Applying" ++ " " ++ name ++ " " ++ green "ok"
  | .failed name => "  " ++ cyan "Applying" ++ " " ++ name ++ " " ++ red "failed"
  | .rolledBack => yellow "Rolled back, nothing was applied."
  | .commitFailed => yellow "Commit failed, check the database version before retrying."
  | .nothingPending => green "No pending patches."
  | .appliedCount n => green s!"Applied {Text.Decimal.ofNat n} patch(es)"
  | .version v => s!"Database version: {bold (versionText v)}"

/-! The equations are stated because making them by unfolding computes with the literals. -/

@[simp] theorem text_rolledBack :
    rolledBack.text = yellow "Rolled back, nothing was applied." := rfl

@[simp] theorem text_commitFailed :
    commitFailed.text = yellow "Commit failed, check the database version before retrying." := rfl

@[simp] theorem text_nothingPending : nothingPending.text = green "No pending patches." := rfl

@[simp] theorem text_appliedCount (n : Nat) :
    (appliedCount n).text = green s!"Applied {Text.Decimal.ofNat n} patch(es)" := rfl

@[simp] theorem text_version (v : Int64) :
    (version v).text = s!"Database version: {bold (versionText v)}" := rfl

/-- The name of the patch that the line is about. -/
def name? : Line → Option String
  | .skipped name | .applied name | .failed name => some name
  | _ => none

def isFailed : Line → Bool
  | .failed _ => true
  | _ => false

/-! ## Lines are told apart -/

/-- How a line of this kind begins. Only what became of a patch is told at the end of the line. -/
def opening : Line → List Char
  | .skipped _ => [' ', ' ', '\x1b', '[', '2']
  | .applied _ | .failed _ => [' ', ' ', '\x1b', '[', '3']
  | .rolledBack => ['\x1b', '[', '3', '3', 'm', 'R']
  | .commitFailed => ['\x1b', '[', '3', '3', 'm', 'C']
  | .nothingPending => ['\x1b', '[', '3', '2', 'm', 'N']
  | .appliedCount _ => ['\x1b', '[', '3', '2', 'm', 'A']
  | .version _ => ['D']

theorem exists_text_eq (line : Line) : ∃ rest, line.text.toList = line.opening ++ rest := by
  unfold text
  cases line
  all_goals
    simp only [dim, cyan, green, yellow, rendition, toString, String.toList_append,
      List.append_assoc]
    repeat rw [Text.toList_of_eq_ofList rfl]
    exact ⟨_, rfl⟩

theorem text_applied_ne (name other : String) : (applied name).text ≠ (failed other).text := by
  unfold text
  dsimp only
  intro h
  -- read from the end: the fifth character but one is a `k` here and a `d` there
  have h := congrArg (·.toList.reverse) h
  simp only [green, red, rendition, String.toList_append, List.append_assoc,
    List.reverse_append] at h
  repeat rw [Text.toList_of_eq_ofList rfl] at h
  simp at h

theorem rendition_inj {start stop a b : String} :
    rendition start stop a = rendition start stop b ↔ a = b := by
  simp [rendition]

theorem text_inj {a b : Line} : a.text = b.text ↔ a = b := by
  refine ⟨fun h => ?_, fun h => congrArg text h⟩
  obtain ⟨_, ha⟩ := a.exists_text_eq
  obtain ⟨_, hb⟩ := b.exists_text_eq
  rw [h, hb] at ha
  -- lines of different kinds already begin differently
  cases a <;> cases b <;> simp [opening] at ha
  case applied.failed name other => exact absurd h (text_applied_ne name other)
  case failed.applied name other => exact absurd h.symm (text_applied_ne other name)
  all_goals unfold text at h
  case skipped.skipped name other => simpa [dim, rendition_inj] using h
  case applied.applied name other => simpa using h
  case failed.failed name other => simpa using h
  case appliedCount.appliedCount n m =>
    simpa [green, rendition_inj, toString, Text.Decimal.ofNat_inj] using h
  case version.version v w =>
    simpa [bold, rendition_inj, toString, versionText, Text.Decimal.ofInt_inj,
      Int64.toInt_inj] using h
  all_goals rfl

/-! ## Lines are read back -/

/-- A text within one line. -/
structure Unbroken (s : String) : Prop where
  noFeed : '\n' ∉ s.toList
  noReturn : '\r' ∉ s.toList

theorem unbroken_append {s t : String} : Unbroken (s ++ t) ↔ Unbroken s ∧ Unbroken t := by
  constructor
  · intro ⟨hfeed, hreturn⟩
    simp only [String.toList_append, List.mem_append, not_or] at hfeed hreturn
    exact ⟨⟨hfeed.1, hreturn.1⟩, hfeed.2, hreturn.2⟩
  · intro ⟨hs, ht⟩
    constructor
    · simp [hs.noFeed, ht.noFeed]
    · simp [hs.noReturn, ht.noReturn]

theorem unbroken_of_eq_ofList {s : String} {l : List Char} (h : s = String.ofList l)
    (hfeed : '\n' ∉ l) (hreturn : '\r' ∉ l) : Unbroken s := by
  rw [← Text.toList_of_eq_ofList h] at hfeed hreturn
  exact ⟨hfeed, hreturn⟩

theorem unbroken_of_isWord {name : String} (h : IsWord name.toList) : Unbroken name := by
  constructor
  · intro hmem
    exact absurd (h.noBlank _ hmem) (by decide)
  · intro hmem
    exact absurd (h.noBlank _ hmem) (by decide)

theorem unbroken_ofNat (n : Nat) : Unbroken (Text.Decimal.ofNat n) := by
  refine unbroken_of_eq_ofList rfl ?_ ?_
  · intro hmem
    exact absurd (Text.Decimal.isDigit_of_mem_digits hmem) (by decide)
  · intro hmem
    exact absurd (Text.Decimal.isDigit_of_mem_digits hmem) (by decide)

theorem unbroken_versionText (v : Int64) : Unbroken (versionText v) := by
  unfold versionText Text.Decimal.ofInt
  split
  · exact unbroken_append.2 ⟨unbroken_of_eq_ofList rfl (by decide) (by decide), unbroken_ofNat _⟩
  · exact unbroken_ofNat _

/-- A line is one line if the name in it is a word. -/
theorem unbroken_text {line : Line} (h : ∀ name ∈ line.name?, IsWord name.toList) :
    Unbroken line.text := by
  have hname : ∀ name ∈ line.name?, Unbroken name := fun name hn => unbroken_of_isWord (h name hn)
  have hnumber := unbroken_ofNat
  have hversion := unbroken_versionText
  unfold text
  cases line
  all_goals
    simp only [dim, cyan, green, red, yellow, bold, rendition, toString, unbroken_append]
    and_intros
  all_goals
    first
    | exact unbroken_of_eq_ofList rfl (by decide) (by decide)
    | exact hname _ rfl
    | exact hnumber _
    | exact hversion _

/-- Lines that are printed one after another are the lines of the text that is printed. -/
theorem lines_join {told : List Line} (h : ∀ line ∈ told, Unbroken line.text) :
    Text.lines (String.join (told.map fun line => line.text ++ "\n")).toList =
      told.map (·.text.toList) := by
  induction told with
  | nil => rfl
  | cons line rest ih =>
    obtain ⟨hline, hrest⟩ := List.forall_mem_cons.1 h
    rw [List.map_cons, List.map_cons, ← ih hrest]
    simp only [String.join_cons, String.toList_append]
    rw [Text.toList_of_eq_ofList (s := "\n") rfl, List.append_assoc]
    exact Text.lines_line hline.noFeed hline.noReturn _

end Line

end QueryBook.Console
