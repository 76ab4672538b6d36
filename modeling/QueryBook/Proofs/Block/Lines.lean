import QueryBook.Block
import QueryBook.Proofs.Text.Words

/-!
# What one line does to the position

A header opens a block wherever reading stands (`step_of_isHeader`). Any other line is read for its
code: in a block it ends the block just if its own code ends in a semicolon, although it is the text
of the whole block that is asked (`isTerminated_append`).
-/

namespace QueryBook.Block

open Text (words isBlank isAllBlank trimEnd)

/-! ## Headers -/

/-- The words before the name in a header. -/
def headerWords : List (List Char) :=
  [['-', '-'], ['n', 'a', 'm', 'e', ':']]

/-- The line is a header with this name. -/
def IsHeader (line name : List Char) : Prop :=
  words line = headerWords ++ [name]

theorem IsHeader.length_words {line name : List Char} (h : IsHeader line name) :
    (words line).length = 3 := by
  rw [h]
  rfl

theorem Line.read_of_isHeader {line name : List Char} (h : IsHeader line name) :
    Line.read line = .header (String.ofList name) := by
  unfold Line.read
  rw [h]
  rfl

theorem Line.read_of_nameless {line : List Char} (h : words line = headerWords) :
    Line.read line = .namelessHeader := by
  unfold Line.read
  rw [h]
  rfl

/-- A line that is no header, with or without a name, is read for its code. -/
theorem Line.read_of_code {line : List Char} (hheader : ∀ name, ¬ IsHeader line name)
    (hnamed : words line ≠ headerWords) : Line.read line = .code (stripComment line) := by
  unfold Line.read
  split
  · rename_i dashes label rest hwords
    split
    · rename_i hlabels
      simp only [Bool.and_eq_true, beq_iff_eq] at hlabels
      obtain ⟨rfl, rfl⟩ := hlabels
      split
      · exact absurd hwords hnamed
      · rename_i name
        exact absurd hwords (hheader name)
      · rfl
    · rfl
  · rfl

/-! ## Terminators -/

/-- Whether the code of a line ends in a semicolon. -/
def endsBlock (line : List Char) : Bool :=
  isTerminated (stripComment line)

/-- A text that is not terminated becomes so just by code that is. -/
theorem isTerminated_append {text : List Char} (hopen : isTerminated text = false)
    (code : List Char) : isTerminated (text ++ ' ' :: code) = isTerminated code := by
  have hblank : isAllBlank (' ' :: code) = isAllBlank code := by
    have hspace : isBlank ' ' = true := by decide
    simp [isAllBlank, hspace]
  unfold isTerminated
  rw [Text.trimEnd_append, hblank]
  by_cases hcode : isAllBlank code = true
  · -- blanks change nothing
    have hnil : trimEnd code = [] := Text.trimEnd_eq_nil_iff.2 hcode
    unfold isTerminated at hopen
    rw [if_pos hcode, hopen, hnil]
    rfl
  · have hne : trimEnd code ≠ [] := mt Text.trimEnd_eq_nil_iff.1 hcode
    have htrim : trimEnd (' ' :: code) = ' ' :: trimEnd code := by
      simpa [hcode] using Text.trimEnd_append [' '] code
    rw [if_neg hcode, htrim, List.getLast?_append, List.getLast?_cons]
    cases hlast : (trimEnd code).getLast? with
    | none => exact absurd (List.getLast?_eq_none_iff.1 hlast) hne
    | some c => rfl

/-- Only the words of a text matter for its statement. -/
theorem statement_congr {a b : List Char} (h : words a = words b) : statement a = statement b := by
  unfold statement Text.normalize
  rw [h]

/-! ## Steps -/

namespace Position

variable {source : String} {n : Nat} {line name text : List Char} {p p' : Position}
variable {query : Option Query}

theorem step_of_isHeader (h : IsHeader line name) :
    p.step source n line = .ok (.block (String.ofList name) [], none) := by
  unfold step
  rw [Line.read_of_isHeader h]

theorem step_of_nameless (h : words line = headerWords) :
    p.step source n line = .error (.namelessHeader source n) := by
  unfold step
  rw [Line.read_of_nameless h]

/-- Before the first header every line may stand. -/
theorem prose_step_eq_ok (hheader : ∀ name, ¬ IsHeader line name) :
    prose.step source n line = .ok (p', query) ↔
      words line ≠ headerWords ∧ p' = .prose ∧ query = none := by
  by_cases hnamed : words line = headerWords
  · simp [step_of_nameless hnamed, hnamed]
  · unfold step
    rw [Line.read_of_code hheader hnamed]
    simp [hnamed, eq_comm]

/-- After a query only lines without code may stand. -/
theorem closed_step_eq_ok (hheader : ∀ name, ¬ IsHeader line name) {name : String} :
    (closed name).step source n line = .ok (p', query) ↔
      words line ≠ headerWords ∧ isAllBlank (stripComment line) = true ∧
        p' = .closed name ∧ query = none := by
  by_cases hnamed : words line = headerWords
  · simp [step_of_nameless hnamed, hnamed]
  · unfold step
    rw [Line.read_of_code hheader hnamed]
    by_cases hblank : isAllBlank (stripComment line) = true
    · simp [hnamed, hblank, eq_comm]
    · simp [hblank]

/-- In a block a line that does not end it is added to its text. -/
theorem block_step_eq_ok (hheader : ∀ name, ¬ IsHeader line name)
    (hopen : isTerminated text = false) (hline : endsBlock line = false) {name : String} :
    (block name text).step source n line = .ok (p', query) ↔
      words line ≠ headerWords ∧ p' = .block name (text ++ ' ' :: stripComment line) ∧
        query = none := by
  have hafter : isTerminated (text ++ ' ' :: stripComment line) = false := by
    rw [isTerminated_append hopen]
    exact hline
  by_cases hnamed : words line = headerWords
  · simp [step_of_nameless hnamed, hnamed]
  · unfold step
    rw [Line.read_of_code hheader hnamed]
    simp [hnamed, hafter, eq_comm]

/-- In a block a line that ends it makes a query of its text. -/
theorem block_step_of_endsBlock (hheader : ∀ name, ¬ IsHeader line name)
    (hnamed : words line ≠ headerWords) (hopen : isTerminated text = false)
    (hline : endsBlock line = true) {name : String} :
    (block name text).step source n line =
      (finish source name (text ++ ' ' :: stripComment line)).map fun query =>
        (.closed name, some query) := by
  have hafter : isTerminated (text ++ ' ' :: stripComment line) = true := by
    rw [isTerminated_append hopen]
    exact hline
  unfold step
  rw [Line.read_of_code hheader hnamed]
  simp only [hafter, if_true]
  cases finish source name (text ++ ' ' :: stripComment line) <;> rfl

/-- In a block a line that ends it makes a query of its text, unless there is no statement. -/
theorem block_step_eq_ok_of_endsBlock (hheader : ∀ name, ¬ IsHeader line name)
    (hopen : isTerminated text = false) (hline : endsBlock line = true) {name : String} :
    (block name text).step source n line = .ok (p', query) ↔
      words line ≠ headerWords ∧ statement (text ++ ' ' :: stripComment line) ≠ [] ∧
        p' = .closed name ∧
        query = some (.ofStatement name (statement (text ++ ' ' :: stripComment line))) := by
  by_cases hnamed : words line = headerWords
  · simp [step_of_nameless hnamed, hnamed]
  · rw [block_step_of_endsBlock hheader hnamed hopen hline]
    by_cases hempty : statement (text ++ ' ' :: stripComment line) = []
    · simp [finish, hempty, Except.map]
    · simp only [finish, List.isEmpty_iff, hempty, if_false, Except.map]
      constructor
      · intro h
        cases h
        exact ⟨hnamed, hempty, rfl, rfl⟩
      · rintro ⟨-, -, rfl, rfl⟩
        rfl

end Position

end QueryBook.Block
