import Mathlib.Data.List.Induction
import Mathlib.Data.List.TakeWhile
import QueryBook.Text.Split

/-!
# Words of a text and blanks at its end

Everything about `words` follows from one equation: a text that is cut at a blank has the words of
its two parts (`words_append_cons`). What is left of a text without the blanks at its end stops where
its last word does (`getLast?_trimEnd_eq`).
-/

namespace QueryBook.Text

/-- The characters of a literal are read off it, not decoded from its bytes. -/
theorem toList_of_eq_ofList {s : String} {l : List Char} (h : s = String.ofList l) :
    s.toList = l := by
  rw [h, String.toList_ofList]

/-! ## Words -/

/-- Cutting at a separator cuts the parts before and after it. -/
theorem split_append_cons {p : Char → Bool} {c : Char} (hc : p c = true) (a b : List Char) :
    split p (a ++ c :: b) = split p a ++ split p b := by
  induction a with
  | nil => simp [split, hc]
  | cons d a ih =>
    rw [List.cons_append]
    by_cases hd : p d = true
    · simp [split, hd, ih]
    · simp only [split, hd, Bool.false_eq_true, if_false, ih]
      cases hsplit : split p a with
      | nil => exact absurd hsplit (split_ne_nil p a)
      | cons piece pieces => rfl

/-- A text without separators belongs to the first piece of what follows it. -/
theorem split_append_of_forall_not {p : Char → Bool} {a s first : List Char}
    {rest : List (List Char)} (ha : ∀ c ∈ a, p c = false) (hs : split p s = first :: rest) :
    split p (a ++ s) = (a ++ first) :: rest := by
  induction a with
  | nil => exact hs
  | cons c a ih =>
    obtain ⟨hc, ha⟩ := List.forall_mem_cons.1 ha
    simp [split, hc, ih ha]

/-- A text without separators is not cut. -/
theorem split_eq_singleton {p : Char → Bool} {s : List Char} (h : ∀ c ∈ s, p c = false) :
    split p s = [s] := by
  have hnil : split p [] = [[]] := rfl
  simpa using split_append_of_forall_not h hnil

@[simp] theorem words_nil : words [] = [] := rfl

theorem words_append_cons {c : Char} (hc : isBlank c = true) (a b : List Char) :
    words (a ++ c :: b) = words a ++ words b := by
  unfold words
  rw [split_append_cons hc, List.filter_append]

theorem words_cons {c : Char} (hc : isBlank c = true) (s : List Char) :
    words (c :: s) = words s := by
  simpa using words_append_cons hc [] s

/-- A text without blanks is a word. -/
theorem words_eq_singleton {w : List Char} (hne : w ≠ []) (h : ∀ c ∈ w, isBlank c = false) :
    words w = [w] := by
  unfold words
  rw [split_eq_singleton h]
  simp [hne]

/-- The words of a text are those of its lines. -/
theorem words_intercalate {c : Char} (hc : isBlank c = true) (lines : List (List Char)) :
    words ([c].intercalate lines) = lines.flatMap words := by
  induction lines with
  | nil => rfl
  | cons line rest ih =>
    cases rest with
    | nil => simp [List.intercalate]
    | cons next rest =>
      rw [List.flatMap_cons, ← ih]
      simpa [List.intercalate] using words_append_cons hc line _

/-! ## Blanks at the end -/

/-- Trimming takes a text away only if it is blank. -/
theorem trimEnd_eq_nil_iff {s : List Char} : trimEnd s = [] ↔ isAllBlank s = true := by
  simp [trimEnd, isAllBlank, List.dropWhile_eq_nil_iff]

/-- Trimming stops in the second part of a text, unless that part is blank. -/
theorem trimEnd_append (a b : List Char) :
    trimEnd (a ++ b) = if isAllBlank b then trimEnd a else a ++ trimEnd b := by
  unfold trimEnd
  rw [List.reverse_append, List.dropWhile_append]
  by_cases hb : isAllBlank b = true
  · have hdrop : b.reverse.dropWhile isBlank = [] := by
      simpa [trimEnd] using trimEnd_eq_nil_iff.2 hb
    simp [hdrop, hb]
  · have hdrop : b.reverse.dropWhile isBlank ≠ [] := by
      simpa [trimEnd] using mt trimEnd_eq_nil_iff.1 hb
    simp [hdrop, hb]

theorem trimEnd_prefix_self (s : List Char) : trimEnd s <+: s := by
  have hsuffix := List.dropWhile_suffix (l := s.reverse) isBlank
  rwa [← List.reverse_prefix, List.reverse_reverse] at hsuffix

theorem getLast?_trimEnd (s : List Char) : ∀ c ∈ (trimEnd s).getLast?, isBlank c = false := by
  intro c hc
  have hhead := List.head?_dropWhile_not isBlank s.reverse
  rw [trimEnd, List.getLast?_reverse] at hc
  rw [hc] at hhead
  simpa using hhead

theorem trimEnd_eq_self {s : List Char} (h : ∀ c ∈ s.getLast?, isBlank c = false) :
    trimEnd s = s := by
  rw [← List.head?_reverse] at h
  unfold trimEnd
  cases hs : s.reverse with
  | nil => simpa using hs
  | cons c rest =>
    have hc : isBlank c = false := h c (by rw [hs]; rfl)
    rw [List.dropWhile_cons_of_neg (by simp [hc]), ← hs, List.reverse_reverse]

/-! ## The last word -/

theorem words_append_of_isAllBlank {b : List Char} (hb : isAllBlank b = true) (a : List Char) :
    words (a ++ b) = words a := by
  induction b generalizing a with
  | nil => rw [List.append_nil]
  | cons c b ih =>
    simp only [isAllBlank, List.all_cons, Bool.and_eq_true] at hb
    have hrest : words b = [] := ih hb.2 []
    rw [words_append_cons hb.1, hrest, List.append_nil]

/-- Only blanks are trimmed, so no word is lost. -/
theorem words_trimEnd (s : List Char) : words (trimEnd s) = words s := by
  have hs : s = trimEnd s ++ (s.reverse.takeWhile isBlank).reverse := by
    unfold trimEnd
    rw [← List.reverse_append, List.takeWhile_append_dropWhile, List.reverse_reverse]
  have hblank : isAllBlank (s.reverse.takeWhile isBlank).reverse = true := by
    unfold isAllBlank
    rw [List.all_reverse, List.all_eq_true]
    exact fun c hc => List.mem_takeWhile_imp hc
  have hwords := words_append_of_isAllBlank hblank (trimEnd s)
  rw [← hs] at hwords
  exact hwords.symm

/-- A text ends in a word, which may be empty, and characters that are not blank and come after the
text belong to that word. -/
theorem exists_words_append (s : List Char) : ∃ front last, (∀ c ∈ last, isBlank c = false) ∧
    ∀ more, (∀ c ∈ more, isBlank c = false) →
      words (s ++ more) = front ++ words (last ++ more) := by
  induction s using List.reverseRecOn with
  | nil => exact ⟨[], [], by simp, fun more _ => rfl⟩
  | append_singleton s c ih =>
    by_cases hc : isBlank c = true
    · refine ⟨words s, [], by simp, fun more _ => ?_⟩
      rw [List.append_assoc, List.singleton_append, words_append_cons hc, List.nil_append]
    · obtain ⟨front, last, hlast, hwords⟩ := ih
      refine ⟨front, last ++ [c], ?_, fun more hmore => ?_⟩
      · simpa [or_imp, forall_and, hc] using hlast
      · have hall : ∀ d ∈ [c] ++ more, isBlank d = false := by simpa [hc] using hmore
        rw [List.append_assoc, hwords _ hall, List.append_assoc]

/-- A character that is not blank is the end of the last word, which it begins or makes longer. -/
theorem exists_words_concat (s : List Char) : ∃ front last, words s = front ++ words last ∧
    (∀ c ∈ last, isBlank c = false) ∧
      ∀ c, isBlank c = false → words (s ++ [c]) = front ++ [last ++ [c]] := by
  obtain ⟨front, last, hlast, hwords⟩ := exists_words_append s
  refine ⟨front, last, by simpa using hwords [] (by simp), hlast, fun c hc => ?_⟩
  have hword : ∀ d ∈ last ++ [c], isBlank d = false := by
    simpa [or_imp, forall_and, hc] using hlast
  rw [hwords [c] (by simpa using hc), words_eq_singleton (by simp) hword]

theorem getLast?_trimEnd_eq (s : List Char) :
    (trimEnd s).getLast? = (words s).getLast?.bind List.getLast? := by
  rw [← words_trimEnd]
  have hlast := getLast?_trimEnd s
  rcases List.eq_nil_or_concat (trimEnd s) with hnil | ⟨front, c, hconcat⟩
  · simp [hnil]
  · rw [List.concat_eq_append] at hconcat
    rw [hconcat] at hlast ⊢
    have hc : isBlank c = false := hlast c (by simp)
    obtain ⟨ws, w, -, -, hwords⟩ := exists_words_concat front
    simp [hwords c hc]

/-- A text without words is blank. -/
theorem words_eq_nil_iff {s : List Char} : words s = [] ↔ isAllBlank s = true := by
  constructor
  · intro h
    rw [← trimEnd_eq_nil_iff, ← List.getLast?_eq_none_iff, getLast?_trimEnd_eq, h]
    rfl
  · intro h
    simpa using words_append_of_isAllBlank h []

end QueryBook.Text
