import Mathlib.Data.List.Chain
import QueryBook.Proofs.Text.Words

/-!
# Texts with single spaces

A text is spaced when its words stand one space apart and nothing else in it is blank. Normalizing
a text leaves it spaced (`spaced_normalize`), and a spaced text is left as it is
(`Spaced.normalize_eq`).
-/

namespace QueryBook.Text

variable {p : Char → Bool} {s t w : List Char}

/-! ## Neighbours -/

/-- No two neighbours are both in the class `p`. -/
def Apart (p : Char → Bool) (s : List Char) : Prop :=
  s.IsChain fun a b => ¬ (p a = true ∧ p b = true)

theorem apart_of_forall_not (h : ∀ c ∈ s, p c = false) : Apart p s := by
  induction s with
  | nil => exact .nil
  | cons c s ih =>
    obtain ⟨hc, hs⟩ := List.forall_mem_cons.1 h
    refine List.isChain_cons.2 ⟨fun d _ => ?_, ih hs⟩
    simp [hc]

/-- A text may be put before another one if nothing in it is in the class. -/
theorem Apart.append_left (ht : Apart p t) (hs : ∀ c ∈ s, p c = false) : Apart p (s ++ t) := by
  refine List.isChain_append.2 ⟨apart_of_forall_not hs, ht, fun c hc d _ => ?_⟩
  simp [hs c (List.mem_of_getLast? hc)]

/-- A character that is not in the class may stand between two texts. -/
theorem Apart.append_cons (hs : Apart p s) {c : Char} (hc : p c = false) (ht : Apart p t) :
    Apart p (s ++ c :: t) := by
  refine List.isChain_append.2 ⟨hs, ht.append_left (s := [c]) (by simpa using hc), ?_⟩
  rintro a - b hb
  cases hb
  simp [hc]

/-! ## Words -/

/-- A text without blanks that is not empty. -/
structure IsWord (w : List Char) : Prop where
  ne_nil : w ≠ []
  noBlank : ∀ c ∈ w, isBlank c = false

theorem isWord_of_mem_words (h : w ∈ words s) : IsWord w :=
  ⟨ne_nil_of_mem_words h, isBlank_of_mem_words h⟩

theorem IsWord.words_eq (h : IsWord w) : words w = [w] :=
  words_eq_singleton h.ne_nil h.noBlank

/-- The first piece begins the text, and the others stand in it. -/
theorem prefix_and_infix_of_split {piece : List Char} {pieces : List (List Char)}
    (h : split p s = piece :: pieces) : piece <+: s ∧ ∀ other ∈ pieces, other <:+: s := by
  induction s generalizing piece pieces with
  | nil =>
    cases h
    exact ⟨List.prefix_rfl, by simp⟩
  | cons c s ih =>
    simp only [split] at h
    split at h
    · cases h
      refine ⟨List.nil_prefix, fun other hother => ?_⟩
      cases hs : split p s with
      | nil => exact absurd hs (split_ne_nil p s)
      | cons first rest =>
        obtain ⟨hfirst, hrest⟩ := ih hs
        rw [hs] at hother
        rcases List.mem_cons.1 hother with rfl | hother
        · exact hfirst.isInfix.trans (List.suffix_cons c s).isInfix
        · exact (hrest other hother).trans (List.suffix_cons c s).isInfix
    · cases hs : split p s with
      | nil => exact absurd hs (split_ne_nil p s)
      | cons first rest =>
        obtain ⟨hfirst, hrest⟩ := ih hs
        rw [hs] at h
        cases h
        refine ⟨List.cons_prefix_cons.2 ⟨rfl, hfirst⟩, fun other hother => ?_⟩
        exact (hrest other hother).trans (List.suffix_cons c s).isInfix

theorem infix_of_mem_words (h : w ∈ words s) : w <:+: s := by
  have hsplit := (List.mem_filter.1 h).1
  cases hs : split isBlank s with
  | nil => exact absurd hs (split_ne_nil _ s)
  | cons first rest =>
    obtain ⟨hfirst, hrest⟩ := prefix_and_infix_of_split hs
    rw [hs] at hsplit
    rcases List.mem_cons.1 hsplit with rfl | hw
    · exact hfirst.isInfix
    · exact hrest w hw

theorem Apart.of_mem_words (hs : Apart p s) (h : w ∈ words s) : Apart p w :=
  hs.infix (infix_of_mem_words h)

theorem apart_joinWords {ws : List (List Char)} (hspace : p ' ' = false)
    (h : ∀ w ∈ ws, Apart p w) : Apart p (joinWords ws) := by
  induction ws with
  | nil => exact .nil
  | cons w ws ih =>
    obtain ⟨hw, hws⟩ := List.forall_mem_cons.1 h
    cases ws with
    | nil => exact hw
    | cons next rest => exact hw.append_cons hspace (ih hws)

/-! ## Spaced texts -/

/-- All blanks are single spaces inside the text. With a space on either side of the text there are
still no two blanks next to each other, so the text is not empty. -/
structure Spaced (s : List Char) : Prop where
  space : ∀ c ∈ s, isBlank c = true → c = ' '
  apart : Apart isBlank (' ' :: s ++ [' '])

/-- What stands between two spaces that are apart begins with a character that is not blank. -/
theorem exists_cons_of_apart (h : Apart isBlank (' ' :: s ++ [' '])) :
    ∃ c rest, s = c :: rest ∧ isBlank c = false := by
  have hspace : isBlank ' ' = true := by decide
  cases s with
  | nil =>
    have hpair := (List.isChain_cons_cons.1 h).1
    exact absurd ⟨hspace, hspace⟩ hpair
  | cons c rest =>
    have hpair := (List.isChain_cons_cons.1 h).1
    exact ⟨c, rest, rfl, by simpa [hspace] using hpair⟩

theorem Spaced.ne_nil (h : Spaced s) : s ≠ [] := by
  obtain ⟨c, rest, rfl, -⟩ := exists_cons_of_apart h.apart
  simp

theorem IsWord.spaced (h : IsWord w) : Spaced w := by
  constructor
  · intro c hc hblank
    rw [h.noBlank c hc] at hblank
    cases hblank
  · have hend : Apart isBlank (w ++ [' ']) :=
      Apart.append_left (List.isChain_singleton ' ') h.noBlank
    obtain ⟨c, rest, rfl⟩ := List.exists_cons_of_ne_nil h.ne_nil
    refine List.isChain_cons_cons.2 ⟨?_, hend⟩
    simp [h.noBlank c List.mem_cons_self]

theorem Spaced.append (hs : Spaced s) (ht : Spaced t) : Spaced (s ++ ' ' :: t) := by
  constructor
  · intro c hc
    rcases List.mem_append.1 hc with hc | hc
    · exact hs.space c hc
    · rcases List.mem_cons.1 hc with rfl | hc
      · exact fun _ => rfl
      · exact ht.space c hc
  · have hsplit : ' ' :: (s ++ ' ' :: t) ++ [' '] = (' ' :: s) ++ ' ' :: (t ++ [' ']) := by simp
    rw [hsplit]
    exact List.isChain_split.2 ⟨hs.apart, ht.apart⟩

theorem spaced_joinWords {ws : List (List Char)} (hne : ws ≠ []) (h : ∀ w ∈ ws, IsWord w) :
    Spaced (joinWords ws) := by
  induction ws with
  | nil => exact absurd rfl hne
  | cons w ws ih =>
    obtain ⟨hw, hws⟩ := List.forall_mem_cons.1 h
    cases ws with
    | nil => exact hw.spaced
    | cons next rest => exact hw.spaced.append (ih (by simp) hws)

theorem spaced_normalize (h : normalize s ≠ []) : Spaced (normalize s) := by
  have hne : words s ≠ [] := by
    intro hnil
    rw [normalize, hnil] at h
    exact h rfl
  exact spaced_joinWords hne fun w hw => isWord_of_mem_words hw

/-- The last character of a spaced text is not blank. -/
theorem Spaced.getLast?_not_blank (h : Spaced s) : ∀ c ∈ s.getLast?, isBlank c = false := by
  intro c hc
  have hlast := (List.isChain_append.1 h.apart).2.2 c
    (by rw [List.getLast?_cons, hc]; rfl) ' ' rfl
  have hspace : isBlank ' ' = true := by decide
  simpa [hspace] using hlast

/-- A text that begins a spaced text is spaced unless it ends in a blank. -/
theorem Spaced.of_prefix_of_ne_nil (ht : Spaced t) (hbegins : s <+: t) (hne : s ≠ [])
    (hlast : ∀ c ∈ s.getLast?, isBlank c = false) : Spaced s := by
  constructor
  · exact fun c hc => ht.space c (hbegins.subset hc)
  · have hbegin : Apart isBlank (' ' :: s) := by
      refine ht.apart.prefix ?_
      exact (List.cons_prefix_cons.2 ⟨rfl, hbegins⟩).trans (List.prefix_append _ _)
    refine List.isChain_append.2 ⟨hbegin, List.isChain_singleton ' ', ?_⟩
    intro c hc d _
    have hc : c ∈ s.getLast? := by
      obtain ⟨first, rest, rfl⟩ := List.exists_cons_of_ne_nil hne
      rwa [List.getLast?_cons_cons] at hc
    simp [hlast c hc]

/-- A character in front of a word belongs to it. -/
theorem exists_words_cons_cons {c d : Char} (hc : isBlank c = false) (hd : isBlank d = false)
    (s : List Char) : ∃ w ws, words (d :: s) = w :: ws ∧ words (c :: d :: s) = (c :: w) :: ws := by
  unfold words
  cases hs : split isBlank s with
  | nil => exact absurd hs (split_ne_nil _ s)
  | cons first rest =>
    refine ⟨d :: first, rest.filter fun piece => !piece.isEmpty, ?_, ?_⟩
    · simp [split, hd, hs]
    · simp [split, hc, hd, hs]

/-- The words of a text give it back, up to the blank that it may begin with. -/
theorem joinWords_words (hspace : ∀ c ∈ s, isBlank c = true → c = ' ')
    (hapart : Apart isBlank (s ++ [' '])) : joinWords (words s) = s.dropWhile isBlank := by
  induction s with
  | nil => rfl
  | cons c s ih =>
    obtain ⟨hc, hs⟩ := List.forall_mem_cons.1 hspace
    obtain ⟨hhead, htail⟩ := List.isChain_cons.1 hapart
    have hrest := ih hs htail
    by_cases hblank : isBlank c = true
    · rw [words_cons hblank, hrest, List.dropWhile_cons_of_pos hblank]
    · rw [List.dropWhile_cons_of_neg hblank]
      cases s with
      | nil =>
        have hword : IsWord [c] := ⟨by simp, by simpa using hblank⟩
        rw [hword.words_eq]
        rfl
      | cons d s =>
        by_cases hd : isBlank d = true
        · -- the word ends here, and another one begins after the space
          obtain rfl : d = ' ' := hs d List.mem_cons_self hd
          obtain ⟨e, rest, rfl, he⟩ := exists_cons_of_apart htail
          have hword : IsWord [c] := ⟨by simp, by simpa using hblank⟩
          have hwords : words (c :: ' ' :: e :: rest) = [c] :: words (e :: rest) := by
            rw [← List.singleton_append, words_append_cons hd, hword.words_eq]
            rfl
          rw [words_cons hd, List.dropWhile_cons_of_pos hd,
            List.dropWhile_cons_of_neg (by simp [he])] at hrest
          cases hmore : words (e :: rest) with
          | nil => simp [hmore, joinWords] at hrest
          | cons w ws =>
            rw [hmore] at hrest
            rw [hwords, hmore]
            show c :: ' ' :: joinWords (w :: ws) = _
            rw [hrest]
        · -- both characters belong to one word
          obtain ⟨w, ws, hwords, hmore⟩ :=
            exists_words_cons_cons (by simpa using hblank) (by simpa using hd) s
          rw [List.dropWhile_cons_of_neg hd, hwords] at hrest
          rw [hmore, ← hrest]
          cases ws <;> rfl

/-- A spaced text is left as it is. -/
theorem Spaced.normalize_eq (h : Spaced s) : normalize s = s := by
  obtain ⟨c, rest, rfl, hc⟩ := exists_cons_of_apart h.apart
  rw [normalize, joinWords_words h.space h.apart.tail, List.dropWhile_cons_of_neg (by simp [hc])]

/-! ## The end of a normalized text -/

theorem words_joinWords {ws : List (List Char)} (h : ∀ w ∈ ws, IsWord w) :
    words (joinWords ws) = ws := by
  induction ws with
  | nil => rfl
  | cons w ws ih =>
    obtain ⟨hw, hws⟩ := List.forall_mem_cons.1 h
    cases ws with
    | nil => exact hw.words_eq
    | cons next rest =>
      show words (w ++ ' ' :: joinWords (next :: rest)) = _
      rw [words_append_cons (by decide), hw.words_eq, ih hws]
      rfl

theorem words_normalize (s : List Char) : words (normalize s) = words s :=
  words_joinWords fun _ hw => isWord_of_mem_words hw

theorem joinWords_concat {ws : List (List Char)} (hne : ws ≠ []) (w : List Char) :
    joinWords (ws ++ [w]) = joinWords ws ++ ' ' :: w := by
  induction ws with
  | nil => exact absurd rfl hne
  | cons first ws ih =>
    cases ws with
    | nil => rfl
    | cons next rest =>
      show first ++ ' ' :: joinWords (next :: rest ++ [w]) = first ++ ' ' :: joinWords _ ++ _
      rw [ih (by simp), List.append_assoc, List.cons_append]

theorem trimEnd_normalize (s : List Char) : trimEnd (normalize s) = normalize s := by
  by_cases hne : normalize s = []
  · rw [hne]
    rfl
  · exact trimEnd_eq_self (spaced_normalize hne).getLast?_not_blank

/-- A normalized text ends in the last character that is not blank. -/
theorem getLast?_normalize (s : List Char) : (normalize s).getLast? = (trimEnd s).getLast? := by
  rw [← trimEnd_normalize, getLast?_trimEnd_eq, getLast?_trimEnd_eq, words_normalize]

/-- A character at the end that is not blank stays there, and in front of it the text is normalized,
up to a space. -/
theorem exists_normalize_concat (s : List Char) {c : Char} (hc : isBlank c = false) :
    ∃ front, normalize (s ++ [c]) = front ++ [c] ∧ trimEnd front = normalize s := by
  obtain ⟨ws, last, hwords, hlast, hconcat⟩ := exists_words_concat s
  have hself := trimEnd_normalize s
  unfold normalize at hself ⊢
  rw [hwords] at hself ⊢
  rw [hconcat c hc]
  by_cases hws : ws = []
  · subst hws
    by_cases hnil : last = []
    · subst hnil
      exact ⟨[], rfl, rfl⟩
    · rw [words_eq_singleton hnil hlast] at hself ⊢
      exact ⟨last, rfl, hself⟩
  · refine ⟨joinWords ws ++ ' ' :: last, ?_, ?_⟩
    · rw [joinWords_concat hws, List.append_assoc, List.cons_append]
    · by_cases hnil : last = []
      · subst hnil
        rw [words_nil, List.append_nil] at hself ⊢
        rw [trimEnd_append, if_pos (by decide), hself]
      · rw [words_eq_singleton hnil hlast, joinWords_concat hws] at hself ⊢
        exact hself

end QueryBook.Text
