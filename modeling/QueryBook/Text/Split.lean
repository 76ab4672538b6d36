import QueryBook.Text.Blank

/-!
Cutting at separators, above all a text: into words, which blanks separate, and into lines, which a
line feed or a carriage return and a line feed end.
-/

namespace QueryBook.Text

/-- The pieces between the elements that satisfy `p`; one piece more than there are such elements. -/
def split {α : Type} (p : α → Bool) : List α → List (List α)
  | [] => [[]]
  | c :: s =>
    if p c then [] :: split p s
    else match split p s with
      | [] => [[c]]
      | piece :: pieces => (c :: piece) :: pieces

theorem split_ne_nil {α : Type} (p : α → Bool) (s : List α) : split p s ≠ [] := by
  cases s with
  | nil => simp [split]
  | cons c s =>
    simp only [split]
    split
    · simp
    · split <;> simp

/-- No piece holds a separator. -/
theorem not_of_mem_split {α : Type} {p : α → Bool} {s piece : List α} (h : piece ∈ split p s) :
    ∀ c ∈ piece, p c = false := by
  induction s generalizing piece with
  | nil => simp_all [split]
  | cons c s ih =>
    simp only [split] at h
    split at h
    · rcases List.mem_cons.1 h with rfl | h
      · simp
      · exact ih h
    · rename_i hc
      split at h
      · simp_all
      · rename_i first others heq
        rcases List.mem_cons.1 h with rfl | h
        · intro d hd
          rcases List.mem_cons.1 hd with rfl | hd
          · simpa using hc
          · exact ih (heq ▸ List.mem_cons_self) d hd
        · exact ih (heq ▸ List.mem_cons_of_mem _ h)

/-- The longest blank-free runs of a text. -/
def words (s : List Char) : List (List Char) :=
  (split isBlank s).filter fun piece => !piece.isEmpty

theorem ne_nil_of_mem_words {s word : List Char} (h : word ∈ words s) : word ≠ [] := by
  simpa using (List.mem_filter.1 h).2

theorem isBlank_of_mem_words {s word : List Char} (h : word ∈ words s) :
    ∀ c ∈ word, isBlank c = false :=
  not_of_mem_split (List.mem_filter.1 h).1

/-- Words with one space between neighbours. -/
def joinWords : List (List Char) → List Char
  | [] => []
  | [word] => word
  | word :: rest => word ++ ' ' :: joinWords rest

/-- A text with every run of blanks made one space and none left at its ends. -/
def normalize (s : List Char) : List Char :=
  joinWords (words s)

/-- A line without the carriage return before its line feed. -/
def dropReturn (line : List Char) : List Char :=
  match line.getLast? with
  | some '\r' => line.dropLast
  | _ => line

/-- The lines of a text cut at its line feeds. The last piece has no line feed: it is a line only
if something stands in it, and its carriage return is kept. -/
def linesOfPieces : List (List Char) → List (List Char)
  | [] => []
  | [piece] => if piece.isEmpty then [] else [piece]
  | piece :: rest => dropReturn piece :: linesOfPieces rest

/-- The lines of a text, without what ends them. -/
def lines (s : List Char) : List (List Char) :=
  linesOfPieces (split (· == '\n') s)

end QueryBook.Text
