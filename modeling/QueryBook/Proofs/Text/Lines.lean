import QueryBook.Proofs.Text.Words

/-!
# Lines of a text

A text that ends at the end of a line can be followed by any other text: their lines follow each
other (`lines_append`). A line is read back from its text (`lines_line`).
-/

namespace QueryBook.Text

theorem linesOfPieces_append (first : List (List Char)) {rest : List (List Char)} (h : rest ≠ []) :
    linesOfPieces (first ++ rest) = first.map dropReturn ++ linesOfPieces rest := by
  induction first with
  | nil => rfl
  | cons piece first ih =>
    have hne : first ++ rest ≠ [] := by simp [h]
    cases happ : first ++ rest with
    | nil => exact absurd happ hne
    | cons next others =>
      rw [List.cons_append, happ, List.map_cons, List.cons_append, ← ih, happ]
      rfl

/-- The pieces before a line feed are lines, whatever comes after it. -/
theorem lines_append_newline (a b : List Char) :
    lines (a ++ '\n' :: b) = (split (· == '\n') a).map dropReturn ++ lines b := by
  unfold lines
  rw [split_append_cons (by decide), linesOfPieces_append _ (split_ne_nil _ b)]

theorem lines_append {a : List Char} (ha : a = [] ∨ ∃ front, a = front ++ ['\n'])
    (b : List Char) : lines (a ++ b) = lines a ++ lines b := by
  rcases ha with rfl | ⟨front, rfl⟩
  · rfl
  · have hnil : lines [] = [] := rfl
    rw [List.append_assoc, List.singleton_append, lines_append_newline, lines_append_newline, hnil,
      List.append_nil]

theorem dropReturn_eq_self {line : List Char} (h : '\r' ∉ line) : dropReturn line = line := by
  unfold dropReturn
  split
  · rename_i hlast
    exact absurd (List.mem_of_getLast? hlast) h
  · rfl

/-- The return that is dropped is a blank. -/
theorem words_dropReturn (line : List Char) : words (dropReturn line) = words line := by
  unfold dropReturn
  split
  · rename_i hlast
    obtain ⟨front, rfl⟩ := List.getLast?_eq_some_iff.1 hlast
    rw [List.dropLast_concat, words_append_cons isBlank_return, words_nil, List.append_nil]
  · rfl

theorem ne_newline_of_not_mem {line : List Char} (h : '\n' ∉ line) :
    ∀ c ∈ line, (c == '\n') = false := by
  intro c hc
  simp only [beq_eq_false_iff_ne]
  rintro rfl
  exact h hc

theorem lines_line_append {line : List Char} (h : '\n' ∉ line) (rest : List Char) :
    lines (line ++ '\n' :: rest) = dropReturn line :: lines rest := by
  rw [lines_append_newline, split_eq_singleton (ne_newline_of_not_mem h)]
  rfl

theorem lines_line {line : List Char} (hfeed : '\n' ∉ line) (hreturn : '\r' ∉ line)
    (rest : List Char) : lines (line ++ '\n' :: rest) = line :: lines rest := by
  rw [lines_line_append hfeed, dropReturn_eq_self hreturn]

end QueryBook.Text
