import QueryBook.Proofs.Block.Lines

/-!
# The grammar of sources

A source is prose and then segments, each of which begins with a header (`Segmentation`). Reading
accepts it just if every header has a name, and every segment that is closed has a statement and no
code after it; the result is one query for each segment that is closed (`queries_eq_ok_iff`).
-/

namespace QueryBook.Block

open Text (words isAllBlank)

/-! ## Segments -/

/-- A header and the lines after it, up to the next header. -/
structure Segment where
  name : List Char
  header : List Char
  body : List (List Char)
  isHeader : IsHeader header name
  noHeader : ∀ line ∈ body, ∀ other, ¬ IsHeader line other

def Segment.lines (s : Segment) : List (List Char) :=
  s.header :: s.body

/-- Lines cut at their headers. -/
structure Segmentation (lines : List (List Char)) where
  /-- The lines before the first header. -/
  prose : List (List Char)
  segments : List Segment
  noHeader : ∀ line ∈ prose, ∀ name, ¬ IsHeader line name
  eq : lines = prose ++ segments.flatMap Segment.lines

/-- All lines can be cut at their headers. -/
theorem nonempty_segmentation (lines : List (List Char)) : Nonempty (Segmentation lines) := by
  induction lines with
  | nil => exact ⟨[], [], by simp, rfl⟩
  | cons line rest ih =>
    obtain ⟨prose, segments, hprose, hrest⟩ := ih
    by_cases h : ∃ name, IsHeader line name
    · obtain ⟨name, hname⟩ := h
      refine ⟨[], ⟨name, line, prose, hname, hprose⟩ :: segments, by simp, ?_⟩
      simp [Segment.lines, hrest]
    · refine ⟨line :: prose, segments, ?_, by simp [hrest]⟩
      intro other hother name hname
      rcases List.mem_cons.1 hother with rfl | hother
      · exact h ⟨name, hname⟩
      · exact hprose other hother name hname

/-- The lines of a segment up to the first one that ends it, and those after it. -/
def Segment.closing? (s : Segment) : Option (List (List Char) × List (List Char)) :=
  match s.body.dropWhile (!endsBlock ·) with
  | [] => none
  | last :: after => some (s.body.takeWhile (!endsBlock ·) ++ [last], after)

/-- The text of lines without their comments. -/
def codeOf (lines : List (List Char)) : List Char :=
  ['\n'].intercalate (lines.map stripComment)

/-- What is asked of a segment that is closed: it has a statement, and no code after it. -/
structure Segment.WellFormed (s : Segment) : Prop where
  statement : ∀ upTo after, s.closing? = some (upTo, after) → statement (codeOf upTo) ≠ []
  after : ∀ upTo after, s.closing? = some (upTo, after) →
    ∀ line ∈ after, isAllBlank (stripComment line) = true

/-- The query of a segment that is closed. -/
def Segment.query? (s : Segment) : Option Query :=
  s.closing?.map fun lines => .ofStatement (String.ofList s.name) (Block.statement (codeOf lines.1))

/-- Either no line ends the segment, or it is closed by the first line that does. -/
theorem Segment.closing_cases (s : Segment) :
    (s.closing? = none ∧ ∀ line ∈ s.body, endsBlock line = false) ∨
      ∃ before last after, s.closing? = some (before ++ [last], after) ∧
        s.body = before ++ last :: after ∧ (∀ line ∈ before, endsBlock line = false) ∧
        endsBlock last = true := by
  have hbefore : ∀ line ∈ s.body.takeWhile (!endsBlock ·), endsBlock line = false := by
    intro line hline
    simpa using List.mem_takeWhile_imp hline
  have hbody := List.takeWhile_append_dropWhile (p := (!endsBlock ·)) (l := s.body)
  unfold Segment.closing?
  cases hdrop : s.body.dropWhile (!endsBlock ·) with
  | nil =>
    rw [hdrop, List.append_nil] at hbody
    rw [hbody] at hbefore
    exact .inl ⟨rfl, hbefore⟩
  | cons last after =>
    rw [hdrop] at hbody
    have hlast : (!endsBlock last) ≠ true := by
      have hhead := List.head?_dropWhile_not (!endsBlock ·) s.body
      simpa [hdrop] using hhead
    exact .inr ⟨_, last, after, rfl, hbody.symm, hbefore, by simpa using hlast⟩

/-- The lines that close a segment are its first ones, and just the last of them ends it. -/
theorem Segment.exists_of_closing {s : Segment} {upTo after : List (List Char)}
    (h : s.closing? = some (upTo, after)) : s.body = upTo ++ after ∧
      ∃ before last, upTo = before ++ [last] ∧ (∀ line ∈ before, endsBlock line = false) ∧
        endsBlock last = true := by
  rcases s.closing_cases with ⟨hclosing, -⟩ | ⟨before, last, more, hclosing, hbody, hends, hlast⟩
  · rw [hclosing] at h
    cases h
  · cases hclosing.symm.trans h
    refine ⟨?_, before, last, rfl, hends, hlast⟩
    rw [hbody, List.append_assoc, List.singleton_append]

/-- A segment that no line ends is well-formed. -/
theorem Segment.wellFormed_of_open {s : Segment} (h : s.closing? = none) : s.WellFormed := by
  constructor
  · intro upTo after hclosing
    simp [h] at hclosing
  · intro upTo after hclosing
    simp [h] at hclosing

theorem Segment.wellFormed_iff {s : Segment} {upTo after : List (List Char)}
    (h : s.closing? = some (upTo, after)) : s.WellFormed ↔ Block.statement (codeOf upTo) ≠ [] ∧
      ∀ line ∈ after, isAllBlank (stripComment line) = true := by
  constructor
  · intro hwell
    exact ⟨hwell.statement upTo after h, hwell.after upTo after h⟩
  · rintro ⟨hstatement, hafter⟩
    constructor
    · intro upTo' after' hclosing
      cases h.symm.trans hclosing
      exact hstatement
    · intro upTo' after' hclosing
      cases h.symm.trans hclosing
      exact hafter

/-! ## Reading the lines of a segment -/

variable {source : String} {n : Nat} {p : Position} {queries : List Query}

theorem readLines_cons_eq_ok {line : List Char} {rest : List (List Char)} :
    readLines source n p (line :: rest) = .ok queries ↔
      ∃ p' query more, p.step source n line = .ok (p', query) ∧
        readLines source (n + 1) p' rest = .ok more ∧ queries = query.toList ++ more := by
  simp only [readLines]
  cases hstep : p.step source n line with
  | error e => simp
  | ok result =>
    obtain ⟨p', query⟩ := result
    dsimp only
    cases hrest : readLines source (n + 1) p' rest with
    | error e =>
      simp only [reduceCtorEq, false_iff]
      rintro ⟨p₁, query₁, more, hok, hmore, -⟩
      cases hok
      rw [hrest] at hmore
      cases hmore
    | ok more =>
      constructor
      · intro h
        cases h
        exact ⟨p', query, more, rfl, hrest, rfl⟩
      · rintro ⟨p₁, query₁, more₁, hok, hmore, rfl⟩
        cases hok
        rw [hrest] at hmore
        cases hmore
        rfl

/-- The text of a block after more lines. -/
def extend (text : List Char) (lines : List (List Char)) : List Char :=
  lines.foldl (fun text line => text ++ ' ' :: stripComment line) text

/-- The position after a line that is no header and ends no query. -/
def Position.grow (p : Position) (line : List Char) : Position :=
  match p with
  | .block name text => .block name (text ++ ' ' :: stripComment line)
  | p => p

@[simp] theorem Position.foldl_grow_prose (lines : List (List Char)) :
    lines.foldl grow .prose = .prose := by
  induction lines with
  | nil => rfl
  | cons line rest ih => exact ih

@[simp] theorem Position.foldl_grow_closed (name : String) (lines : List (List Char)) :
    lines.foldl grow (.closed name) = .closed name := by
  induction lines with
  | nil => rfl
  | cons line rest ih => exact ih

@[simp] theorem Position.foldl_grow_block (name : String) (text : List Char)
    (lines : List (List Char)) :
    lines.foldl grow (.block name text) = .block name (extend text lines) := by
  induction lines generalizing text with
  | nil => rfl
  | cons line rest ih => exact ih _

/-- Lines that are no headers and end no query. While the invariant holds, a line is an error unless
it is `good`; then it only makes the position grow. -/
theorem readLines_append_eq_ok (Inv : Position → Prop) (good : List Char → Prop)
    {body : List (List Char)} (rest : List (List Char)) (hp : Inv p)
    (hstep : ∀ p, Inv p → ∀ line ∈ body, Inv (p.grow line) ∧ ∀ n p' query,
      p.step source n line = .ok (p', query) ↔
        words line ≠ headerWords ∧ good line ∧ p' = p.grow line ∧ query = none) :
    readLines source n p (body ++ rest) = .ok queries ↔
      (∀ line ∈ body, words line ≠ headerWords ∧ good line) ∧
        readLines source (n + body.length) (body.foldl Position.grow p) rest = .ok queries := by
  induction body generalizing n p with
  | nil => simp
  | cons line body ih =>
    obtain ⟨hnext, hline⟩ := hstep p hp line List.mem_cons_self
    have hbody : readLines source (n + 1) (p.grow line) (body ++ rest) = .ok queries ↔ _ :=
      ih hnext fun p hp line hl => hstep p hp line (List.mem_cons_of_mem _ hl)
    rw [List.cons_append, readLines_cons_eq_ok, List.forall_mem_cons, List.foldl_cons,
      List.length_cons, Nat.add_comm body.length, ← Nat.add_assoc, and_assoc, ← hbody]
    constructor
    · rintro ⟨p', query, more, hok, hmore, rfl⟩
      obtain ⟨hnamed, hgood, rfl, rfl⟩ := (hline n p' query).1 hok
      exact ⟨⟨hnamed, hgood⟩, hmore⟩
    · rintro ⟨⟨hnamed, hgood⟩, hmore⟩
      exact ⟨_, none, queries, (hline n _ none).2 ⟨hnamed, hgood, rfl, rfl⟩, hmore, rfl⟩

theorem readLines_prose {prose : List (List Char)} (rest : List (List Char))
    (hheader : ∀ line ∈ prose, ∀ name, ¬ IsHeader line name) :
    readLines source n .prose (prose ++ rest) = .ok queries ↔
      (∀ line ∈ prose, words line ≠ headerWords) ∧
        readLines source (n + prose.length) .prose rest = .ok queries := by
  rw [readLines_append_eq_ok (· = .prose) (fun _ => True) rest rfl]
  · simp
  · rintro p rfl line hline
    refine ⟨rfl, fun n p' query => ?_⟩
    rw [Position.prose_step_eq_ok (hheader line hline), true_and]
    rfl

theorem readLines_closed {name : String} {after : List (List Char)} (rest : List (List Char))
    (hheader : ∀ line ∈ after, ∀ name, ¬ IsHeader line name) :
    readLines source n (.closed name) (after ++ rest) = .ok queries ↔
      (∀ line ∈ after, words line ≠ headerWords ∧ isAllBlank (stripComment line) = true) ∧
        readLines source (n + after.length) (.closed name) rest = .ok queries := by
  rw [readLines_append_eq_ok (· = .closed name)
    (fun line => isAllBlank (stripComment line) = true) rest rfl]
  · simp
  · rintro p rfl line hline
    exact ⟨rfl, fun n p' query => Position.closed_step_eq_ok (hheader line hline)⟩

theorem isTerminated_extend {text : List Char} (hopen : isTerminated text = false)
    {lines : List (List Char)} (hlines : ∀ line ∈ lines, endsBlock line = false) :
    isTerminated (extend text lines) = false := by
  induction lines generalizing text with
  | nil => exact hopen
  | cons line rest ih =>
    obtain ⟨hline, hrest⟩ := List.forall_mem_cons.1 hlines
    refine ih ?_ hrest
    rw [isTerminated_append hopen]
    exact hline

theorem readLines_open {name : String} {text : List Char} (hopen : isTerminated text = false)
    {body : List (List Char)} (rest : List (List Char))
    (hheader : ∀ line ∈ body, ∀ name, ¬ IsHeader line name)
    (hbody : ∀ line ∈ body, endsBlock line = false) :
    readLines source n (.block name text) (body ++ rest) = .ok queries ↔
      (∀ line ∈ body, words line ≠ headerWords) ∧
        readLines source (n + body.length) (.block name (extend text body)) rest = .ok queries := by
  rw [readLines_append_eq_ok (fun p => ∃ text, p = .block name text ∧ isTerminated text = false)
    (fun _ => True) rest ⟨text, rfl, hopen⟩]
  · simp
  · rintro p ⟨text, rfl, hopen⟩ line hline
    refine ⟨⟨_, rfl, ?_⟩, fun n p' query => ?_⟩
    · rw [isTerminated_append hopen]
      exact hbody line hline
    · rw [Position.block_step_eq_ok (hheader line hline) hopen (hbody line hline), true_and]
      rfl

/-! ## Reading segments -/

/-- The words of a line without its comment. -/
def lineWords (line : List Char) : List (List Char) :=
  words (stripComment line)

theorem words_codeOf (lines : List (List Char)) : words (codeOf lines) = lines.flatMap lineWords := by
  rw [codeOf, Text.words_intercalate Text.isBlank_newline, List.flatMap_map]
  rfl

theorem words_extend (text : List Char) (lines : List (List Char)) :
    words (extend text lines) = words text ++ lines.flatMap lineWords := by
  induction lines generalizing text with
  | nil => simp [extend]
  | cons line rest ih =>
    have hspace : Text.isBlank ' ' = true := by decide
    show words (extend (text ++ ' ' :: stripComment line) rest) = _
    rw [ih, Text.words_append_cons hspace, List.append_assoc, List.flatMap_cons]
    rfl

/-- The text that a block collects has the statement of its lines. -/
theorem statement_extend (lines : List (List Char)) :
    statement (extend [] lines) = statement (codeOf lines) := by
  refine statement_congr ?_
  rw [words_extend, words_codeOf]
  rfl

theorem statement_extend_concat (lines : List (List Char)) (last : List Char) :
    statement (extend [] lines ++ ' ' :: stripComment last) = statement (codeOf (lines ++ [last])) := by
  rw [← statement_extend, extend, extend, List.foldl_append]
  rfl

theorem readLines_header {line name : List Char} (h : IsHeader line name)
    (rest : List (List Char)) : readLines source n p (line :: rest) =
      readLines source (n + 1) (.block (String.ofList name) []) rest := by
  simp only [readLines, Position.step_of_isHeader h]
  cases readLines source (n + 1) (.block (String.ofList name) []) rest <;> rfl

/-- At a header and at the end it does not matter where reading stands. -/
theorem readLines_segments_congr (p p' : Position) (segments : List Segment) :
    readLines source n p (segments.flatMap Segment.lines) =
      readLines source n p' (segments.flatMap Segment.lines) := by
  cases segments with
  | nil => rfl
  | cons s rest =>
    simp only [List.flatMap_cons, Segment.lines, List.cons_append]
    rw [readLines_header s.isHeader, readLines_header s.isHeader]

theorem readLines_segment (s : Segment) (segments : List Segment) :
    readLines source n p (s.lines ++ segments.flatMap Segment.lines) = .ok queries ↔
      (∀ line ∈ s.lines, words line ≠ headerWords) ∧ s.WellFormed ∧
        ∃ more, readLines source (n + s.lines.length) .prose (segments.flatMap Segment.lines) =
          .ok more ∧ queries = s.query?.toList ++ more := by
  have hnamed : words s.header ≠ headerWords := by
    rw [s.isHeader]
    simp
  have hopen : isTerminated [] = false := rfl
  rw [Segment.lines, List.cons_append, readLines_header s.isHeader, List.forall_mem_cons,
    List.length_cons]
  rcases s.closing_cases with
    ⟨hclosing, hends⟩ | ⟨before, last, after, hclosing, hbody, hends, hlast⟩
  · -- the block is still open at the next header
    have hwell : s.WellFormed := Segment.wellFormed_of_open hclosing
    have hquery : s.query? = none := by simp [Segment.query?, hclosing]
    have hn : n + (s.body.length + 1) = n + 1 + s.body.length := by omega
    rw [readLines_open hopen _ s.noHeader hends, readLines_segments_congr _ .prose, hquery, hn]
    simp [hnamed, hwell]
  · have hbefore : ∀ line ∈ before, ∀ name, ¬ IsHeader line name :=
      fun line hl => s.noHeader line (by simp [hbody, hl])
    have hafter : ∀ line ∈ after, ∀ name, ¬ IsHeader line name :=
      fun line hl => s.noHeader line (by simp [hbody, hl])
    have hend : ∀ name, ¬ IsHeader last name := s.noHeader last (by simp [hbody])
    have hquery : s.query? = some (.ofStatement (String.ofList s.name)
        (statement (codeOf (before ++ [last])))) := by
      simp [Segment.query?, hclosing]
    have hn : n + (s.body.length + 1) = n + 1 + before.length + 1 + after.length := by
      rw [hbody, List.length_append, List.length_cons]
      omega
    rw [Segment.wellFormed_iff hclosing, hquery, hn, hbody, List.append_assoc, List.cons_append,
      readLines_open hopen _ hbefore hends, readLines_cons_eq_ok]
    simp only [Position.block_step_eq_ok_of_endsBlock hend (isTerminated_extend hopen hends) hlast,
      statement_extend_concat, List.forall_mem_append, List.forall_mem_cons]
    constructor
    · rintro ⟨hb, p', query, more, ⟨hl, hne, rfl, rfl⟩, hmore, rfl⟩
      rw [readLines_closed _ hafter, readLines_segments_congr _ .prose] at hmore
      obtain ⟨ha, hmore⟩ := hmore
      exact ⟨⟨hnamed, hb, hl, fun line h => (ha line h).1⟩, ⟨hne, fun line h => (ha line h).2⟩,
        more, hmore, rfl⟩
    · rintro ⟨⟨-, hb, hl, ha⟩, ⟨hne, hblank⟩, more, hmore, rfl⟩
      refine ⟨hb, _, _, more, ⟨hl, hne, rfl, rfl⟩, ?_, rfl⟩
      rw [readLines_closed _ hafter, readLines_segments_congr _ .prose]
      exact ⟨fun line h => ⟨ha line h, hblank line h⟩, hmore⟩

theorem readLines_segments (segments : List Segment) :
    readLines source n .prose (segments.flatMap Segment.lines) = .ok queries ↔
      (∀ s ∈ segments, (∀ line ∈ s.lines, words line ≠ headerWords) ∧ s.WellFormed) ∧
        queries = segments.filterMap Segment.query? := by
  induction segments generalizing n queries with
  | nil => simp [readLines, eq_comm]
  | cons s rest ih =>
    have hqueries : (s :: rest).filterMap Segment.query? =
        s.query?.toList ++ rest.filterMap Segment.query? := by
      rw [List.filterMap_cons]
      cases s.query? <;> rfl
    rw [List.flatMap_cons, readLines_segment, List.forall_mem_cons, hqueries]
    simp only [ih]
    constructor
    · rintro ⟨hnamed, hwell, more, ⟨hrest, rfl⟩, rfl⟩
      exact ⟨⟨⟨hnamed, hwell⟩, hrest⟩, rfl⟩
    · rintro ⟨⟨⟨hnamed, hwell⟩, hrest⟩, rfl⟩
      exact ⟨hnamed, hwell, _, ⟨hrest, rfl⟩, rfl⟩

end QueryBook.Block

namespace QueryBook.Source

open Block (Segment Segmentation headerWords)
open Text (words)

/-- Reading accepts just what the grammar allows: however the lines are cut at their headers, no
header is without a name and every segment is well-formed. The queries are those of the segments
that are closed, in order. -/
theorem queries_eq_ok_iff (source : Source) :
    Nonempty (Segmentation (Text.lines source.text.toList)) ∧
      ∀ (cut : Segmentation (Text.lines source.text.toList)) (queries : List Query),
        source.queries = .ok queries ↔
          (∀ line ∈ Text.lines source.text.toList, words line ≠ headerWords) ∧
            (∀ s ∈ cut.segments, s.WellFormed) ∧
            queries = cut.segments.filterMap Segment.query? := by
  refine ⟨Block.nonempty_segmentation _, fun cut queries => ?_⟩
  obtain ⟨prose, segments, hprose, hlines⟩ := cut
  unfold Source.queries
  dsimp only
  rw [hlines, Block.readLines_prose _ hprose, Block.readLines_segments, List.forall_mem_append]
  constructor
  · rintro ⟨hnamed, hsegments, rfl⟩
    refine ⟨⟨hnamed, fun line hline => ?_⟩, fun s hs => (hsegments s hs).2, rfl⟩
    obtain ⟨s, hs, hmem⟩ := List.mem_flatMap.1 hline
    exact (hsegments s hs).1 line hmem
  · rintro ⟨⟨hnamed, hrest⟩, hwell, rfl⟩
    refine ⟨hnamed, fun s hs => ⟨fun line hline => ?_, hwell s hs⟩, rfl⟩
    exact hrest line (List.mem_flatMap.2 ⟨s, hs, hline⟩)

end QueryBook.Source
