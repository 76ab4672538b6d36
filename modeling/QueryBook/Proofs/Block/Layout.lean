import QueryBook.Proofs.Block.Code

/-!
# Layouts of a statement

The words of a statement can be written after a header in many ways: with blanks, line ends and
comments before, between and after them, and with the semicolon that ends them wherever a word could
stand (`Layout`). All of them are read as the same query (`queries_of_layout`), because the code of
every layout has the same words (`Layout.exists_code`).
-/

namespace QueryBook

namespace Block

open Text (Apart IsWord isBlank isAllBlank words)

variable {gap w text : List Char} {ws : List (List Char)}

/-! ## Gaps -/

/-- What may stand between words: blanks, line ends among them, and comments up to the end of their
lines. -/
inductive Gap : List Char → Prop where
  | nil : Gap []
  | blank {c : Char} {s : List Char} (hc : isBlank c = true) (hs : Gap s) : Gap (c :: s)
  | comment {note s : List Char} (hnote : '\n' ∉ note) (hs : Gap s) :
      Gap ('-' :: '-' :: note ++ '\n' :: s)

/-- A gap gives no words. -/
theorem Gap.codeWords_append (h : Gap gap) (s : List Char) :
    codeWords (gap ++ s) = codeWords s := by
  have hline : '\n' ∉ ([] : List Char) := by simp
  induction h with
  | nil => rfl
  | @blank c rest hc _ ih =>
    have hrest := codeWords_append_blank hline .nil hc (rest ++ s)
    rw [ih] at hrest
    exact hrest
  | @comment note rest hnote _ ih =>
    have hrest := codeWords_append_comment hline (List.isChain_singleton '-') hnote (rest ++ s)
    rw [ih] at hrest
    rw [List.append_assoc]
    exact hrest

/-- A gap that is not empty ends the code before it. -/
theorem Gap.codeWords_append_append (h : Gap gap) (hne : gap ≠ []) (hline : '\n' ∉ w)
    (hcode : Apart (· == '-') w) (hdash : w.getLast? = some '-' → gap.head? ≠ some '-') (s : List Char) :
    codeWords (w ++ gap ++ s) = words w ++ codeWords s := by
  cases h with
  | nil => exact absurd rfl hne
  | @blank c rest hc hrest =>
    rw [List.append_assoc, List.cons_append, codeWords_append_blank hline hcode hc,
      hrest.codeWords_append]
  | @comment note rest hnote hrest =>
    have hnext : Apart (· == '-') (w ++ ['-']) := by
      refine List.isChain_append.2 ⟨hcode, List.isChain_singleton '-', ?_⟩
      rintro c hc d - ⟨hlast, -⟩
      rw [beq_iff_eq.1 hlast] at hc
      exact hdash hc rfl
    have hsplit : w ++ ('-' :: '-' :: note ++ '\n' :: rest) ++ s =
        w ++ '-' :: '-' :: note ++ '\n' :: (rest ++ s) := by simp
    rw [hsplit, codeWords_append_comment hline hnext hnote, hrest.codeWords_append]

/-! ## Layouts -/

/-- A word of a statement: it holds no blank, no comment and no semicolon. -/
structure IsCodeWord (w : List Char) : Prop where
  isWord : IsWord w
  noComment : ¬ ['-', '-'] <:+: w
  noSemicolon : ';' ∉ w

/-- The words with gaps after them, and a semicolon. A gap between two words is not empty, and if a
comment follows a word at once, then that word does not end in a dash. After the semicolon there is
a gap as well, but the line it ends in may be the last one of the text. -/
inductive Layout : List (List Char) → List Char → Prop where
  | semicolon {gap : List Char} (hgap : Gap (gap ++ ['\n'])) : Layout [] (';' :: gap)
  | word {w gap s : List Char} {ws : List (List Char)} (hw : IsCodeWord w) (hgap : Gap gap)
      (hdash : w.getLast? = some '-' → gap.head? ≠ some '-') (hsep : gap = [] → ws = [])
      (hs : Layout ws s) : Layout (w :: ws) (w ++ gap ++ s)

theorem IsCodeWord.apart (h : IsCodeWord w) : Apart (· == '-') w :=
  apart_of_not_infix h.noComment

theorem IsCodeWord.newline_not_mem (h : IsCodeWord w) : '\n' ∉ w := by
  intro hmem
  have hblank := h.isWord.noBlank _ hmem
  rw [Text.isBlank_newline] at hblank
  cases hblank

/-- The semicolon ends the word that it stands at, and nothing comes after it. -/
theorem codeWords_terminator (hgap : Gap (gap ++ ['\n'])) (hline : '\n' ∉ w)
    (hcode : Apart (· == '-') w) : codeWords (w ++ ';' :: gap) = words (w ++ [';']) := by
  have hnil : codeWords [] = [] := rfl
  have hend : codeWords (w ++ ';' :: gap ++ '\n' :: []) = codeWords (w ++ ';' :: gap) := by
    rw [codeWords_append_newline, hnil, List.append_nil]
  have hsplit : w ++ ';' :: gap ++ '\n' :: [] = w ++ [';'] ++ (gap ++ ['\n']) ++ [] := by simp
  rw [← hend, hsplit, hgap.codeWords_append_append (by simp) (by simpa using hline)
    (hcode.append_cons rfl .nil) (by simp), hnil, List.append_nil]

/-- The code of every layout has the words of one text: the words of the statement with a semicolon
right behind the last of them or apart from it. -/
theorem Layout.exists_code (h : Layout ws text) :
    ∃ code, words code = ws ∧ ';' ∉ code ∧ codeWords text = words (code ++ [';']) := by
  induction h with
  | semicolon hgap =>
    have hwords := codeWords_terminator hgap (w := []) (by simp) .nil
    exact ⟨[], rfl, by simp, hwords⟩
  | @word w gap s ws hw hgap hdash hsep hs ih =>
    by_cases hne : gap = []
    · -- nothing stands between the last word and the semicolon
      subst hne
      cases hsep rfl
      cases hs with
      | semicolon hend =>
        refine ⟨w, hw.isWord.words_eq, hw.noSemicolon, ?_⟩
        rw [List.append_nil, codeWords_terminator hend hw.newline_not_mem hw.apart]
    · obtain ⟨code, hwords, hfree, hcode⟩ := ih
      have hspace : isBlank ' ' = true := by decide
      refine ⟨w ++ ' ' :: code, ?_, ?_, ?_⟩
      · rw [Text.words_append_cons hspace, hw.isWord.words_eq, hwords]
        rfl
      · simp [hw.noSemicolon, hfree]
      · rw [hgap.codeWords_append_append hne hw.newline_not_mem hw.apart hdash, hcode,
          List.append_assoc, List.cons_append, Text.words_append_cons hspace]

theorem Layout.isWord_of_mem (h : Layout ws text) : ∀ word ∈ ws, IsWord word := by
  obtain ⟨code, rfl, -, -⟩ := h.exists_code
  exact fun word hword => Text.isWord_of_mem_words hword

/-- A segment whose body is a layout is closed, and its statement is that of the layout. -/
theorem Segment.exists_closing_of_layout {s : Segment} (hlayout : Layout ws text)
    (hbody : s.body.flatMap lineWords = codeWords text) :
    ∃ upTo after, s.closing? = some (upTo, after) ∧ statement (codeOf upTo) = Text.joinWords ws ∧
      ∀ line ∈ after, isAllBlank (stripComment line) = true := by
  obtain ⟨code, hwords, hfree, hcode⟩ := hlayout.exists_code
  obtain ⟨front, last, hsplit, -, hconcat⟩ := Text.exists_words_concat code
  have hend := hconcat ';' (by decide)
  have hfront : ∀ word ∈ front, word.getLast? ≠ some ';' := by
    intro word hmem hlast
    have hwithin := Text.infix_of_mem_words (hsplit ▸ List.mem_append_left _ hmem : word ∈ words code)
    exact hfree (hwithin.subset (List.mem_of_getLast? hlast))
  rw [hcode, hend] at hbody
  obtain ⟨upTo, after, hclosing, hupTo, hafter⟩ :=
    Segment.exists_closing hbody hfront List.getLast?_concat
  refine ⟨upTo, after, hclosing, ?_, hafter⟩
  rw [statement_congr (hupTo.trans hend.symm), statement_concat, Text.normalize, hwords]

end Block

namespace Source

open Block (Gap IsHeader Layout Segment)
open Text (words)

/-- However the words of a statement are laid out after a header, the source defines one query, with
the name in the header and with the words one space apart as its statement. -/
theorem queries_of_layout (title : String) (header name lead text : List Char)
    (ws : List (List Char)) (hheader : IsHeader header name) (hline : '\n' ∉ header)
    (hlead : Gap lead) (hlayout : Layout ws text) (hne : ws ≠ [])
    (hplain : ∀ line ∈ Text.lines (lead ++ text), ¬ Block.headerWords <+: words line) :
    Source.queries ⟨title, String.ofList (header ++ '\n' :: (lead ++ text))⟩ =
      .ok [.ofStatement (String.ofList name) (Text.joinWords ws)] := by
  have hname : IsHeader (Text.dropReturn header) name := (Text.words_dropReturn header).trans hheader
  let s : Segment :=
    { name, header := Text.dropReturn header, body := Text.lines (lead ++ text), isHeader := hname,
      noHeader := fun line hmem other h => hplain line hmem (h ▸ List.prefix_append _ _) }
  obtain ⟨upTo, after, hclosing, hstatement, hafter⟩ :=
    Segment.exists_closing_of_layout (s := s) hlayout (hlead.codeWords_append text)
  have hlines : Text.lines (header ++ '\n' :: (lead ++ text)) = [s].flatMap Segment.lines := by
    rw [Text.lines_line_append hline]
    simp [s, Segment.lines]
  have hnamed : ∀ line ∈ s.lines, words line ≠ Block.headerWords := by
    refine List.forall_mem_cons.2 ⟨?_, fun line hmem h => hplain line hmem (h ▸ List.prefix_rfl)⟩
    rw [s.isHeader]
    simp
  have hwell : s.WellFormed := by
    rw [Segment.wellFormed_iff hclosing, hstatement]
    exact ⟨(Text.spaced_joinWords hne hlayout.isWord_of_mem).ne_nil, hafter⟩
  have hquery : [s].filterMap Segment.query? =
      [.ofStatement (String.ofList name) (Text.joinWords ws)] := by
    simp [Segment.query?, hclosing, hstatement, s]
  unfold Source.queries
  dsimp only
  rw [String.toList_ofList, hlines, Block.readLines_segments, hquery]
  exact ⟨by simpa using ⟨hnamed, hwell⟩, rfl⟩

def commented : String :=
  "-- name: get\r\n\nSELECT\t:id-- not ; :x\r\n-- note\n  ; -- done"

/-- Comments with a semicolon and with a parameter in them, and both kinds of line ends. -/
theorem queries_of_layout_commented :
    Source.queries ⟨"users.sql", commented⟩ = .ok [⟨"get", "SELECT $1", ["id"]⟩] := by
  have hgap : Gap ('-' :: '-' :: " not ; :x\r".toList ++
      '\n' :: ('-' :: '-' :: " note".toList ++ '\n' :: [' ', ' '])) :=
    .comment (by decide) (.comment (by decide) (.blank (by decide) (.blank (by decide) .nil)))
  have hdone : Gap (' ' :: ('-' :: '-' :: " done".toList ++ '\n' :: [])) :=
    .blank (by decide) (.comment (by decide) .nil)
  have hend : Gap (" -- done".toList ++ ['\n']) := hdone
  have hselect : Block.IsCodeWord "SELECT".toList :=
    ⟨Text.isWord_of_mem_words (s := "SELECT".toList) (by decide), by decide, by decide⟩
  have hid : Block.IsCodeWord ":id".toList :=
    ⟨Text.isWord_of_mem_words (s := ":id".toList) (by decide), by decide, by decide⟩
  have hlayout : Layout ["SELECT".toList, ":id".toList] _ :=
    .word hselect (.blank (c := '\t') (by decide) .nil) (by decide) (by simp)
      (.word hid hgap (by decide) (by simp) (.semicolon hend))
  have hlead : Gap ['\n'] := .blank (by decide) .nil
  exact queries_of_layout "users.sql" "-- name: get\r".toList "get".toList ['\n'] _ _ rfl
    (by decide) hlead hlayout (by simp) (by decide)

end Source

end QueryBook
