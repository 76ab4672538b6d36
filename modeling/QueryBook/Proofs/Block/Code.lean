import QueryBook.Proofs.Block.Rendered

/-!
# The words of the code of a text

The code of a text is what is left of its lines without their comments. Its words can be read off
the text from the front to the end, whatever the lines are: a blank ends a word, and the end of a
line is a blank like any other (`codeWords_append_blank`); a comment ends a word and gives none
(`codeWords_append_comment`). A segment with no semicolon in its code but the last character of its
last word is closed where that word stands (`Segment.exists_closing`).
-/

namespace QueryBook.Block

open Text (Apart IsWord isBlank isAllBlank split words)

/-! ## Comments -/

theorem stripComment_cons {c : Char} {s : List Char} (h : c = '-' → s.head? ≠ some '-') :
    stripComment (c :: s) = c :: stripComment s := by
  rw [stripComment]
  rintro rest rfl rfl
  exact h rfl rfl

/-- No comment begins in code that has no two dashes in it, nor between its last character and the
next one. -/
theorem stripComment_append {code : List Char} {c : Char} (h : Apart (· == '-') (code ++ [c]))
    (s : List Char) : stripComment (code ++ c :: s) = code ++ stripComment (c :: s) := by
  induction code with
  | nil => rfl
  | cons d code ih =>
    have hhead : (code ++ c :: s).head? = (code ++ [c]).head? := by
      cases code <;> rfl
    have hdash : d = '-' → (code ++ c :: s).head? ≠ some '-' := by
      rintro rfl hnext
      exact (List.isChain_cons.1 h).1 '-' (hhead ▸ hnext) (by simp)
    rw [List.cons_append, stripComment_cons hdash, ih h.tail, List.cons_append]

/-- Every line is code, or code and a comment. -/
theorem stripComment_cases (line : List Char) :
    Apart (· == '-') line ∧ stripComment line = line ∨
      ∃ code text, line = code ++ '-' :: '-' :: text ∧ Apart (· == '-') (code ++ ['-']) ∧
        stripComment line = code := by
  fun_induction stripComment line with
  | case1 text => exact .inr ⟨[], text, rfl, List.isChain_singleton '-', rfl⟩
  | case2 c s hdashes ih =>
    have hnext : ∀ d ∈ s.head?, ¬ ((c == '-') = true ∧ (d == '-') = true) := by
      rintro d hd ⟨hc, hdash⟩
      rw [beq_iff_eq] at hc hdash
      subst hc hdash
      obtain ⟨rest, rfl⟩ := List.head?_eq_some_iff.1 hd
      exact hdashes rest rfl rfl
    rcases ih with ⟨hcode, hstrip⟩ | ⟨code, text, rfl, hcode, hstrip⟩
    · exact .inl ⟨List.isChain_cons.2 ⟨hnext, hcode⟩, by rw [hstrip]⟩
    · refine .inr ⟨c :: code, text, rfl, List.isChain_cons.2 ⟨fun d hd => hnext d ?_, hcode⟩, ?_⟩
      · cases code <;> exact hd
      · rw [hstrip]
  | case3 => exact .inl ⟨.nil, rfl⟩

theorem ne_dash_of_isBlank {c : Char} (h : isBlank c = true) : c ≠ '-' := by
  rintro rfl
  exact absurd h (by decide)

/-! ## Words of a line -/

theorem lineWords_eq_nil_iff {line : List Char} :
    lineWords line = [] ↔ isAllBlank (stripComment line) = true :=
  Text.words_eq_nil_iff

/-- A line ends a block just if its last word ends in a semicolon. -/
theorem endsBlock_iff {line : List Char} :
    endsBlock line = true ↔ (lineWords line).getLast?.bind List.getLast? = some ';' := by
  unfold endsBlock isTerminated lineWords
  rw [← Text.getLast?_trimEnd_eq, beq_iff_eq]

/-- A blank at the end of a line does not matter. -/
theorem lineWords_concat {c : Char} (hc : isBlank c = true) (line : List Char) :
    lineWords (line ++ [c]) = lineWords line := by
  have hdash : (c == '-') = false := beq_eq_false_iff_ne.2 (ne_dash_of_isBlank hc)
  unfold lineWords
  rcases stripComment_cases line with ⟨hcode, hstrip⟩ | ⟨code, text, rfl, hcode, hstrip⟩
  · rw [stripComment_eq_self (hcode.append_cons hdash .nil), hstrip, Text.words_append_cons hc,
      Text.words_nil, List.append_nil]
  · rw [List.append_assoc, hstrip]
    rw [List.cons_append, List.cons_append, stripComment_append hcode]
    simp [stripComment]

theorem lineWords_dropReturn (line : List Char) :
    lineWords (Text.dropReturn line) = lineWords line := by
  unfold Text.dropReturn
  split
  · rename_i hlast
    obtain ⟨front, rfl⟩ := List.getLast?_eq_some_iff.1 hlast
    rw [List.dropLast_concat, lineWords_concat Text.isBlank_return]
  · rfl

/-! ## Words of a text -/

/-- The words of a text without its comments. -/
def codeWords (text : List Char) : List (List Char) :=
  (Text.lines text).flatMap lineWords

theorem codeWords_eq (text : List Char) :
    codeWords text = (split (· == '\n') text).flatMap lineWords := by
  unfold codeWords Text.lines
  generalize split (· == '\n') text = pieces
  induction pieces with
  | nil => rfl
  | cons piece rest ih =>
    cases rest with
    | nil =>
      cases piece with
      | nil => rfl
      | cons c piece => rfl
    | cons next rest =>
      show (Text.dropReturn piece :: Text.linesOfPieces (next :: rest)).flatMap lineWords = _
      rw [List.flatMap_cons, lineWords_dropReturn, ih]
      rfl

/-- A line end separates what stands before it from what follows. -/
theorem codeWords_append_newline (a b : List Char) :
    codeWords (a ++ '\n' :: b) = codeWords a ++ codeWords b := by
  rw [codeWords_eq, codeWords_eq, codeWords_eq, Text.split_append_cons rfl, List.flatMap_append]

theorem codeWords_of_not_mem {line : List Char} (h : '\n' ∉ line) :
    codeWords line = lineWords line := by
  rw [codeWords_eq, Text.split_eq_singleton (Text.ne_newline_of_not_mem h), List.flatMap_singleton]

/-- A blank separates the code before it from the rest of the text. -/
theorem codeWords_append_blank {code : List Char} (hline : '\n' ∉ code)
    (hcode : Apart (· == '-') code) {c : Char} (hc : isBlank c = true) (s : List Char) :
    codeWords (code ++ c :: s) = words code ++ codeWords s := by
  by_cases hnewline : c = '\n'
  · subst hnewline
    rw [codeWords_append_newline, codeWords_of_not_mem hline, lineWords, stripComment_eq_self hcode]
  · have hdash := ne_dash_of_isBlank hc
    have hnext : Apart (· == '-') (code ++ [c]) := hcode.append_cons (by simpa using hdash) .nil
    have hpart : '\n' ∉ code ++ [c] := by
      simpa [hline] using Ne.symm hnewline
    rw [codeWords_eq, codeWords_eq, ← List.singleton_append, ← List.append_assoc]
    cases hs : split (· == '\n') s with
    | nil => exact absurd hs (Text.split_ne_nil _ s)
    | cons first rest =>
      have hfirst : lineWords (code ++ [c] ++ first) = words code ++ lineWords first := by
        unfold lineWords
        rw [List.append_assoc, List.singleton_append, stripComment_append hnext,
          stripComment_cons fun h => absurd h hdash, Text.words_append_cons hc]
      rw [Text.split_append_of_forall_not (Text.ne_newline_of_not_mem hpart) hs,
        List.flatMap_cons, hfirst, List.append_assoc, List.flatMap_cons]

/-- A comment ends the code before it, and the text goes on with the next line. -/
theorem codeWords_append_comment {code : List Char} (hline : '\n' ∉ code)
    (hcode : Apart (· == '-') (code ++ ['-'])) {comment : List Char} (hcomment : '\n' ∉ comment)
    (s : List Char) :
    codeWords (code ++ '-' :: '-' :: comment ++ '\n' :: s) = words code ++ codeWords s := by
  have hwhole : '\n' ∉ code ++ '-' :: '-' :: comment := by
    simp [hline, hcomment]
  rw [codeWords_append_newline, codeWords_of_not_mem hwhole, lineWords, stripComment_append hcode]
  simp [stripComment]

/-! ## Closed segments -/

/-- What is not in front of the last element is the last element. -/
theorem eq_nil_of_append_cons_eq_concat {α : Type} {before after front : List α} {x last : α}
    (h : before ++ x :: after = front ++ [last]) (hx : x ∉ front) : after = [] := by
  rcases List.eq_nil_or_concat after with rfl | ⟨more, y, rfl⟩
  · rfl
  · rw [List.concat_eq_append, ← List.cons_append, ← List.append_assoc] at h
    obtain ⟨hfront, -⟩ := List.append_inj' h rfl
    exact absurd (hfront ▸ List.mem_append_right before List.mem_cons_self) hx

/-- If just the last of all words ends in a semicolon, the segment is closed where that word stands. -/
theorem Segment.exists_closing {s : Segment} {front : List (List Char)} {last : List Char}
    (hwords : s.body.flatMap lineWords = front ++ [last])
    (hfront : ∀ w ∈ front, w.getLast? ≠ some ';') (hlast : last.getLast? = some ';') :
    ∃ upTo after, s.closing? = some (upTo, after) ∧ words (codeOf upTo) = front ++ [last] ∧
      ∀ line ∈ after, isAllBlank (stripComment line) = true := by
  rcases s.closing_cases with
    ⟨-, hends⟩ | ⟨before, line, after, hclosing, hbody, -, hline⟩
  · -- the line with the last word would end the segment
    obtain ⟨line, hmem, hword⟩ := List.mem_flatMap.1
      (hwords ▸ List.mem_append_right front List.mem_cons_self : last ∈ s.body.flatMap lineWords)
    obtain ⟨first, rest, hbody⟩ := List.append_of_mem hmem
    obtain ⟨y, z, hline⟩ := List.append_of_mem hword
    rw [hbody, List.flatMap_append, List.flatMap_cons, hline, List.append_assoc, List.cons_append,
      ← List.append_assoc] at hwords
    have hnil := eq_nil_of_append_cons_eq_concat hwords fun hmem => hfront last hmem hlast
    rw [(List.append_eq_nil_iff.1 hnil).1] at hline
    have hend : endsBlock line = true := by
      rw [endsBlock_iff, hline, List.getLast?_concat]
      exact hlast
    rw [hends line hmem] at hend
    cases hend
  · rw [endsBlock_iff] at hline
    obtain ⟨w, hw, hsemicolon⟩ := Option.bind_eq_some_iff.1 hline
    obtain ⟨y, hy⟩ := List.getLast?_eq_some_iff.1 hw
    have hall := hwords
    rw [hbody, List.flatMap_append, List.flatMap_cons, hy, List.append_assoc,
      List.singleton_append, ← List.append_assoc] at hwords
    have hnil := eq_nil_of_append_cons_eq_concat hwords fun hmem => hfront w hmem hsemicolon
    refine ⟨_, after, hclosing, ?_, fun other hother => ?_⟩
    · rw [words_codeOf, ← hall, hbody, List.flatMap_append, List.flatMap_append, List.flatMap_cons,
        List.flatMap_cons, hnil]
      rfl
    · rw [← lineWords_eq_nil_iff]
      exact List.flatMap_eq_nil_iff.1 hnil other hother

end QueryBook.Block
