import QueryBook.Proofs.Block.Grammar
import QueryBook.Proofs.Statement.Rendering
import QueryBook.Proofs.Text.Lines

/-!
# Rendered queries are read back

The body of a query that has been read is one spaced line without comments and parameters
(`canonical_of_mem_queries`). Written as a source of its own, such a query is read back as it is
(`queries_sourceText`).
-/

namespace QueryBook

namespace Block

open Statement (pieces)
open Text (Apart IsWord Spaced isBlank words)

/-! ## Comments -/

theorem stripComment_prefix_self (line : List Char) : stripComment line <+: line := by
  fun_induction stripComment line with
  | case1 => exact List.nil_prefix
  | case2 c s _ ih => exact List.cons_prefix_cons.2 ⟨rfl, ih⟩
  | case3 => exact List.nil_prefix

/-- Nothing is left of a comment. -/
theorem apart_stripComment (line : List Char) : Apart (· == '-') (stripComment line) := by
  fun_induction stripComment line with
  | case1 => exact .nil
  | case3 => exact .nil
  | case2 c s hdashes ih =>
    refine List.isChain_cons.2 ⟨?_, ih⟩
    intro d hd hboth
    simp only [beq_iff_eq] at hboth
    obtain ⟨rfl, rfl⟩ := hboth
    -- the character after the dash is the one that stands there in the line
    obtain ⟨rest, hrest⟩ := stripComment_prefix_self s
    cases hstrip : stripComment s with
    | nil => simp [hstrip] at hd
    | cons e more =>
      rw [hstrip] at hd hrest
      cases hd
      exact hdashes (more ++ rest) rfl hrest.symm

/-- A line without two dashes holds no comment. -/
theorem stripComment_eq_self {line : List Char} (h : Apart (· == '-') line) :
    stripComment line = line := by
  fun_induction stripComment line with
  | case1 rest => exact absurd (List.isChain_cons_cons.1 h).1 (by simp)
  | case2 c s _ ih => rw [ih (List.isChain_cons.1 h).2]
  | case3 => rfl

theorem not_infix_of_apart {s : List Char} (h : Apart (· == '-') s) : ¬ ['-', '-'] <:+: s := by
  intro hmem
  have hdashes := h.infix hmem
  exact absurd (List.isChain_cons_cons.1 hdashes).1 (by simp)

theorem apart_of_not_infix {s : List Char} (h : ¬ ['-', '-'] <:+: s) : Apart (· == '-') s := by
  refine List.isChain_iff_forall_rel_of_append_cons_cons.2 ?_
  rintro c d front rest rfl ⟨hc, hd⟩
  rw [beq_iff_eq] at hc hd
  subst hc hd
  exact h ⟨front, rest, by simp⟩

/-! ## Statements -/

theorem statement_prefix_normalize (text : List Char) : statement text <+: Text.normalize text := by
  unfold statement dropTerminator
  refine (Text.trimEnd_prefix_self _).trans ?_
  split
  · exact List.dropLast_prefix _
  · exact List.prefix_rfl

theorem spaced_statement {text : List Char} (h : statement text ≠ []) :
    Spaced (statement text) := by
  have hbegins := statement_prefix_normalize text
  have hne : Text.normalize text ≠ [] := by
    intro hnil
    rw [hnil] at hbegins
    exact h (List.prefix_nil.1 hbegins)
  exact (Text.spaced_normalize hne).of_prefix_of_ne_nil hbegins h (Text.getLast?_trimEnd _)

/-- A statement holds no comment if no line of its block does. -/
theorem apart_statement {q : Char → Bool} (hspace : q ' ' = false) {lines : List (List Char)}
    (h : ∀ line ∈ lines, Apart q (stripComment line)) : Apart q (statement (codeOf lines)) := by
  have hwords : ∀ w ∈ words (codeOf lines), Apart q w := by
    intro w hw
    rw [words_codeOf] at hw
    obtain ⟨line, hline, hw⟩ := List.mem_flatMap.1 hw
    exact (h line hline).of_mem_words hw
  have hjoined := Text.apart_joinWords hspace hwords
  exact hjoined.prefix (statement_prefix_normalize _)

/-- A terminator that is added is taken off again. -/
theorem statement_concat (s : List Char) : statement (s ++ [';']) = Text.normalize s := by
  obtain ⟨front, hnormalize, htrim⟩ :=
    Text.exists_normalize_concat s (by decide : isBlank ';' = false)
  unfold statement dropTerminator
  rw [hnormalize]
  simpa using htrim

/-! ## Queries that have been read -/

/-- A text that could be the body of a query. -/
structure Canonical (body : List Char) : Prop where
  spaced : Spaced body
  noComment : Apart (· == '-') body
  noParam : pieces body = body.map .char

/-- A query that has been read comes from a segment that is closed. -/
theorem exists_segment {source : Source} {queries : List Query}
    (h : source.queries = .ok queries) {q : Query} (hq : q ∈ queries) :
    ∃ (s : Segment) (upTo : List (List Char)), statement (codeOf upTo) ≠ [] ∧
      q = .ofStatement (String.ofList s.name) (statement (codeOf upTo)) := by
  obtain ⟨prose, segments, hprose, hlines⟩ := (nonempty_segmentation
    (Text.lines source.text.toList)).some
  unfold Source.queries at h
  rw [hlines, readLines_prose _ hprose, readLines_segments] at h
  obtain ⟨-, hsegments, rfl⟩ := h
  obtain ⟨s, hs, hquery⟩ := List.mem_filterMap.1 hq
  obtain ⟨lines, hclosing, rfl⟩ := Option.map_eq_some_iff.1 hquery
  exact ⟨s, lines.1, (hsegments s hs).2.statement lines.1 lines.2 hclosing, rfl⟩

theorem Segment.isWord_name (s : Segment) : IsWord s.name := by
  refine Text.isWord_of_mem_words (s := s.header) ?_
  rw [s.isHeader]
  simp

theorem canonical_of_mem_queries {source : Source} {queries : List Query}
    (h : source.queries = .ok queries) {q : Query} (hq : q ∈ queries) :
    IsWord q.name.toList ∧ Canonical q.body.toList := by
  obtain ⟨s, upTo, hne, rfl⟩ := exists_segment h hq
  have hbody : (Query.ofStatement (String.ofList s.name) (statement (codeOf upTo))).body.toList =
      Statement.render (statement (codeOf upTo)) := String.toList_ofList
  rw [hbody]
  refine ⟨?_, ?_, ?_, ?_⟩
  · show IsWord (String.ofList s.name).toList
    rw [String.toList_ofList]
    exact s.isWord_name
  · exact Statement.spaced_render (spaced_statement hne)
  · refine Statement.apart_render Statement.foreign_dash (apart_statement rfl ?_)
    exact fun line _ => apart_stripComment line
  · exact Statement.pieces_render _

/-! ## Queries as sources -/

/-- The first line of a source that is made of a query. -/
def headerLine (name : List Char) : List Char :=
  "-- name: ".toList ++ name

theorem isHeader_headerLine {name : List Char} (h : IsWord name) :
    IsHeader (headerLine name) name := by
  have hspace : isBlank ' ' = true := by decide
  have hdashes : IsWord ['-', '-'] := ⟨by simp, by simp [isBlank, Text.blankRanges]⟩
  have hlabel : IsWord ['n', 'a', 'm', 'e', ':'] := ⟨by simp, by simp [isBlank, Text.blankRanges]⟩
  show words (['-', '-'] ++ ' ' :: (['n', 'a', 'm', 'e', ':'] ++ ' ' :: name)) = _
  rw [Text.words_append_cons hspace, Text.words_append_cons hspace, hdashes.words_eq,
    hlabel.words_eq, h.words_eq]
  rfl

theorem toList_sourceText (q : Query) : q.sourceText.toList =
    headerLine q.name.toList ++ '\n' :: (q.body.toList ++ [';'] ++ '\n' :: []) := by
  have hfeed : "\n".toList = ['\n'] := by decide
  have hend : ";\n".toList = [';', '\n'] := by decide
  unfold Query.sourceText headerLine
  rw [String.toList_append, String.toList_append, String.toList_append, String.toList_append,
    hfeed, hend]
  generalize "-- name: ".toList ++ q.name.toList = header
  simp

theorem space_of_mem_label : ∀ c ∈ "-- name: ".toList, isBlank c = true → c = ' ' := by
  have hlabel : "-- name: ".toList = ['-', '-', ' ', 'n', 'a', 'm', 'e', ':', ' '] := by decide
  rw [hlabel]
  simp [isBlank, Text.blankRanges]

/-- No blank but a space stands in the two lines, so nothing else ends them. -/
theorem lines_sourceText {q : Query} (hname : IsWord q.name.toList) (hbody : Spaced q.body.toList) :
    Text.lines q.sourceText.toList = [headerLine q.name.toList, q.body.toList ++ [';']] := by
  have hheader : ∀ c, isBlank c = true → c ≠ ' ' → c ∉ headerLine q.name.toList := by
    intro c hblank hne hc
    unfold headerLine at hc
    rw [List.mem_append] at hc
    cases hc with
    | inl hc => exact hne (space_of_mem_label c hc hblank)
    | inr hc =>
      rw [hname.noBlank c hc] at hblank
      cases hblank
  have hline : ∀ c, isBlank c = true → c ≠ ' ' → c ∉ q.body.toList ++ [';'] := by
    intro c hblank hne hc
    rcases List.mem_append.1 hc with hc | hc
    · exact hne (hbody.space c hc hblank)
    · cases List.mem_singleton.1 hc
      exact absurd hblank (by decide)
  have hnewline : isBlank '\n' = true := Text.isBlank_newline
  have hreturn : isBlank '\r' = true := Text.isBlank_return
  rw [toList_sourceText,
    Text.lines_line (hheader _ hnewline (by decide)) (hheader _ hreturn (by decide)),
    Text.lines_line (hline _ hnewline (by decide)) (hline _ hreturn (by decide))]
  rfl

theorem not_mem_words {line : List Char} (h : Apart (· == '-') line) : ['-', '-'] ∉ words line :=
  fun hmem => not_infix_of_apart h (Text.infix_of_mem_words hmem)

theorem readLines_body {source name : String} {body : List Char} (hbody : Canonical body) (n : Nat) :
    readLines source n (.block name []) [body ++ [';']] = .ok [⟨name, String.ofList body, []⟩] := by
  have hdashes : Apart (· == '-') (body ++ [';']) :=
    hbody.noComment.append_cons rfl .nil
  have hstrip : stripComment (body ++ [';']) = body ++ [';'] := stripComment_eq_self hdashes
  have hheader : ∀ title, ¬ IsHeader (body ++ [';']) title := by
    intro title h
    exact not_mem_words hdashes (by rw [h]; simp [headerWords])
  have hnamed : words (body ++ [';']) ≠ headerWords := by
    intro h
    exact not_mem_words hdashes (by rw [h]; simp [headerWords])
  have hends : endsBlock (body ++ [';']) = true := by
    rw [endsBlock, hstrip, isTerminated, Text.trimEnd_eq_self]
    · simp
    · simp
      decide
  have hstatement : statement ([] ++ ' ' :: stripComment (body ++ [';'])) = body := by
    rw [hstrip, List.nil_append, ← List.cons_append, statement_concat, Text.normalize,
      Text.words_cons (by decide)]
    exact hbody.spaced.normalize_eq
  have hstep : Position.step source n (.block name []) (body ++ [';']) =
      .ok (.closed name, some ⟨name, String.ofList body, []⟩) := by
    rw [Position.block_step_eq_ok_of_endsBlock hheader rfl hends, hstatement,
      Statement.ofStatement_eq hbody.noParam]
    exact ⟨hnamed, hbody.spaced.ne_nil, rfl, rfl⟩
  rw [readLines_cons_eq_ok]
  exact ⟨_, _, [], hstep, rfl, rfl⟩

end Block

namespace Source

open Block (Canonical)

/-- A query that has been read, written as a source, is read back with the same name and body and
without parameters. Its body holds no comment and no parameter, and no blanks but single spaces
inside it; rendering it again changes nothing. -/
theorem queries_sourceText (source : Source) (queries : List Query)
    (h : source.queries = .ok queries) (q : Query) (hq : q ∈ queries) :
    (∀ name, Source.queries ⟨name, q.sourceText⟩ = .ok [⟨q.name, q.body, []⟩]) ∧
      ¬ ['-', '-'] <:+: q.body.toList ∧ '\n' ∉ q.body.toList ∧
      (∀ c ∈ q.body.toList, Text.isBlank c = true → c = ' ') ∧
      Text.normalize q.body.toList = q.body.toList ∧
      (∀ param, .param param ∉ Statement.pieces q.body.toList) ∧
      Query.ofStatement q.name q.body.toList = ⟨q.name, q.body, []⟩ := by
  obtain ⟨hname, hbody⟩ := Block.canonical_of_mem_queries h hq
  have hnewline : '\n' ∉ q.body.toList := by
    intro hmem
    exact absurd (hbody.spaced.space _ hmem Text.isBlank_newline) (by decide)
  have hparam : ∀ param, .param param ∉ Statement.pieces q.body.toList := by
    rw [hbody.noParam]
    simp
  have hstatement : Query.ofStatement q.name q.body.toList = ⟨q.name, q.body, []⟩ := by
    rw [Statement.ofStatement_eq hbody.noParam, String.ofList_toList]
  refine ⟨fun name => ?_, Block.not_infix_of_apart hbody.noComment, hnewline, hbody.spaced.space,
    hbody.spaced.normalize_eq, hparam, hstatement⟩
  rw [Source.queries, Block.lines_sourceText hname hbody.spaced,
    Block.readLines_header (Block.isHeader_headerLine hname), Block.readLines_body hbody,
    String.ofList_toList, String.ofList_toList]

def castTwice : String := "-- name: q\nSELECT :x::int, -- twice\n  :x;\n"

theorem queries_sourceText_castTwice :
    Source.queries ⟨"a.sql", castTwice⟩ = .ok [⟨"q", "SELECT $1::int, $1", ["x"]⟩] ∧
      Source.queries ⟨"b.sql", "-- name: q\nSELECT $1::int, $1;\n"⟩ =
        .ok [⟨"q", "SELECT $1::int, $1", []⟩] := by
  have h : Source.queries ⟨"a.sql", castTwice⟩ = .ok [⟨"q", "SELECT $1::int, $1", ["x"]⟩] := by
    rfl
  exact ⟨h, (queries_sourceText _ _ h _ List.mem_cons_self).1 "b.sql"⟩

end Source

end QueryBook
