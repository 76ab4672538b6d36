import QueryBook.Proofs.Block.Code
import QueryBook.Proofs.Block.Concatenation
import QueryBook.Proofs.Statement.Replacement

/-!
# Terminators and statements

A block ends with a semicolon, and one semicolon is taken off its text. So a query has a statement
just if no second semicolon stands before the first one (`EndsTwice`): otherwise that one is still
the end of its body, and a block of nothing but semicolons is a query where it should be an error
(`queries_holdsStatement_iff`).
-/

namespace QueryBook

namespace Statement

/-- A parameter and its placeholder end in no semicolon, so rendering neither adds nor hides one. -/
theorem getLast?_render_eq_semicolon_iff (s : List Char) :
    (render s).getLast? = some ';' ↔ s.getLast? = some ';' := by
  have hrender := render_eq_written s
  have hsource := source_pieces s
  rcases List.eq_nil_or_concat (pieces s) with hnil | ⟨front, p, hconcat⟩
  · rw [hnil] at hrender hsource
    rw [hrender, ← hsource]
    rfl
  · rw [List.concat_eq_append] at hconcat
    rw [hconcat, written, List.flatMap_append, List.flatMap_singleton] at hrender
    rw [hconcat, List.flatMap_append, List.flatMap_singleton] at hsource
    rw [hrender]
    conv => rhs; rw [← hsource]
    cases p with
    | char c => simp [Piece.source, Piece.number, NumberedPiece.render]
    | param name =>
      have hname : IsName name.toList := by
        refine isName_of_mem_scan (show .param name ∈ scan 0 false s from ?_)
        rw [← pieces, hconcat]
        simp
      have hplaceholder : ';' ∉ ((Piece.param name).number (params s)).render :=
        not_mem_render_param (by decide) (by decide)
      have hsource : ';' ∉ (Piece.param name).source := by
        intro h
        rcases List.mem_cons.1 h with h | h
        · exact absurd h (by decide)
        · exact absurd (hname.nameChar _ h) (by decide)
      have hne : ((Piece.param name).number (params s)).render ≠ [] := List.cons_ne_nil _ _
      have hnonempty : (Piece.param name).source ≠ [] := List.cons_ne_nil _ _
      rw [List.getLast?_append_of_ne_nil _ hne, List.getLast?_append_of_ne_nil _ hnonempty]
      exact iff_of_false (mt List.mem_of_getLast? hplaceholder) (mt List.mem_of_getLast? hsource)

end Statement

namespace Block

open Text (Spaced isBlank isAllBlank normalize trimEnd words)

variable {code body : List Char} {upTo after : List (List Char)} {s : Segment}

/-! ## Bodies and terminators -/

/-- What the body of a query should be: it says something, and its terminator has been taken off. -/
structure HoldsStatement (body : List Char) : Prop where
  content : ∃ c ∈ body, isBlank c = false ∧ c ≠ ';'
  noTerminator : body.getLast? ≠ some ';'

/-- Without its last semicolon the code still ends in a semicolon. -/
def EndsTwice (code : List Char) : Prop :=
  isTerminated (trimEnd code).dropLast = true

instance (code : List Char) : Decidable (EndsTwice code) :=
  inferInstanceAs (Decidable (isTerminated (trimEnd code).dropLast = true))

theorem isTerminated_iff {text : List Char} :
    isTerminated text = true ↔ (trimEnd text).getLast? = some ';' :=
  beq_iff_eq

/-- The last character of a spaced text is not blank, so it is content unless it is a semicolon. -/
theorem holdsStatement_iff (h : Spaced body) : HoldsStatement body ↔ body.getLast? ≠ some ';' := by
  refine ⟨HoldsStatement.noTerminator, fun hlast => ⟨?_, hlast⟩⟩
  have hc : body.getLast? = some (body.getLast h.ne_nil) := List.getLast?_eq_some_getLast h.ne_nil
  refine ⟨_, List.getLast_mem h.ne_nil, h.getLast?_not_blank _ hc, ?_⟩
  intro heq
  rw [hc, heq] at hlast
  exact hlast rfl

/-! ## Statements of terminated code -/

/-- The statement of terminated code is the code before the semicolon that is taken off. -/
theorem exists_statement_eq_normalize (h : isTerminated code = true) : ∃ front,
    trimEnd code = front ++ [';'] ∧ statement code = normalize front ∧
      (EndsTwice code ↔ isTerminated front = true) := by
  obtain ⟨front, hfront⟩ := List.getLast?_eq_some_iff.1 (isTerminated_iff.1 h)
  refine ⟨front, hfront, ?_, ?_⟩
  · rw [← statement_concat, ← hfront]
    exact statement_congr (Text.words_trimEnd code).symm
  · rw [EndsTwice, hfront, List.dropLast_concat]

theorem getLast?_statement (h : isTerminated code = true) :
    (statement code).getLast? = some ';' ↔ EndsTwice code := by
  obtain ⟨front, -, hstatement, htwice⟩ := exists_statement_eq_normalize h
  rw [hstatement, Text.getLast?_normalize, htwice, isTerminated_iff]

/-- Of nothing but semicolons and blanks no statement is left, unless there are two semicolons. -/
theorem statement_eq_nil_iff (h : isTerminated code = true)
    (hcode : ∀ c ∈ code, isBlank c = true ∨ c = ';') : statement code = [] ↔ ¬ EndsTwice code := by
  constructor
  · intro hnil
    rw [← getLast?_statement h, hnil]
    simp
  · intro htwice
    by_contra hne
    rw [← getLast?_statement h] at htwice
    obtain ⟨front, hfront, hstatement, -⟩ := exists_statement_eq_normalize h
    rw [hstatement] at hne htwice
    -- the last character of the statement stands in the code and is no semicolon
    have hlast := List.getLast?_eq_some_getLast hne
    generalize (normalize front).getLast hne = c at hlast
    have hblank := (Text.spaced_normalize hne).getLast?_not_blank c hlast
    have hmem : c ∈ code := by
      rw [Text.getLast?_normalize] at hlast
      have hc := (Text.trimEnd_prefix_self front).subset (List.mem_of_getLast? hlast)
      refine (Text.trimEnd_prefix_self code).subset ?_
      rw [hfront]
      exact List.mem_append_left _ hc
    rcases hcode c hmem with hc | rfl
    · rw [hblank] at hc
      cases hc
    · exact htwice hlast

/-- The lines of a closed segment end where its code is terminated. -/
theorem Segment.isTerminated_codeOf (h : s.closing? = some (upTo, after)) :
    isTerminated (codeOf upTo) = true := by
  obtain ⟨-, before, last, rfl, -, hlast⟩ := Segment.exists_of_closing h
  rw [endsBlock_iff] at hlast
  obtain ⟨w, hw, hsemicolon⟩ := Option.bind_eq_some_iff.1 hlast
  obtain ⟨front, hfront⟩ := List.getLast?_eq_some_iff.1 hw
  rw [isTerminated_iff, Text.getLast?_trimEnd_eq, words_codeOf, List.flatMap_append,
    List.flatMap_singleton, hfront, ← List.append_assoc, List.getLast?_concat]
  exact hsemicolon

/-- The query of a closed segment holds a statement unless the code of the segment ends twice. -/
theorem Segment.holdsStatement_query_iff (h : s.closing? = some (upTo, after))
    (hne : statement (codeOf upTo) ≠ []) {q : Query} (hq : s.query? = some q) :
    HoldsStatement q.body.toList ↔ ¬ EndsTwice (codeOf upTo) := by
  rw [Segment.query?, h] at hq
  cases hq
  have hbody : (Query.ofStatement (String.ofList s.name) (statement (codeOf upTo))).body.toList =
      Statement.render (statement (codeOf upTo)) := String.toList_ofList
  rw [hbody, holdsStatement_iff (Statement.spaced_render (spaced_statement hne)), Ne,
    Statement.getLast?_render_eq_semicolon_iff, getLast?_statement (Segment.isTerminated_codeOf h)]

/-! ## The end of a segment -/

variable {source : String} {n : Nat} {p : Position}

/-- Reading the last of the lines that close a segment makes the query of their code. -/
theorem Segment.exists_step_closing (source : String) (n : Nat) (p : Position)
    (h : s.closing? = some (upTo, after)) (hnamed : ∀ line ∈ upTo, words line ≠ headerWords) :
    ∃ before last p', upTo = before ++ [last] ∧
      ReadsTo source n p (s.header :: before) [] p' ∧
      ∀ m, p'.step source m last = (finish source (String.ofList s.name) (codeOf upTo)).map
        fun query => (.closed (String.ofList s.name), some query) := by
  obtain ⟨hbody, before, last, rfl, hends, hlast⟩ := s.exists_of_closing h
  have hheader : ∀ line ∈ before ++ [last], ∀ other, ¬ IsHeader line other :=
    fun line hline => s.noHeader line (hbody ▸ List.mem_append_left after hline)
  obtain ⟨hheader, hend⟩ := List.forall_mem_append.1 hheader
  obtain ⟨hnamed, hnamedLast⟩ := List.forall_mem_append.1 hnamed
  refine ⟨before, last, _, rfl, readsTo_block hheader hnamed hends s.isHeader, fun m => ?_⟩
  rw [Position.block_step_of_endsBlock (hend last List.mem_cons_self)
    (hnamedLast last List.mem_cons_self) (isTerminated_extend rfl hends) hlast]
  unfold finish
  rw [statement_extend_concat]

theorem Segment.readsTo_closing (h : s.closing? = some (upTo, after))
    (hnamed : ∀ line ∈ upTo, words line ≠ headerWords) (hne : statement (codeOf upTo) ≠ []) :
    ReadsTo source n p (s.header :: upTo)
      [.ofStatement (String.ofList s.name) (statement (codeOf upTo))]
      (.closed (String.ofList s.name)) := by
  obtain ⟨before, last, p', hsplit, hblock, hstep⟩ := s.exists_step_closing source n p h hnamed
  simp only [finish, List.isEmpty_iff, hne, if_false] at hstep
  have hall := hblock.append (.cons (hstep _) .nil)
  rw [List.cons_append, ← hsplit] at hall
  exact hall

theorem Segment.readLines_eq_emptyQuery (h : s.closing? = some (upTo, after))
    (hnamed : ∀ line ∈ upTo, words line ≠ headerWords) (hnil : statement (codeOf upTo) = [])
    (more : List (List Char)) : readLines source n p (s.header :: upTo ++ more) =
      .error (.emptyQuery source (String.ofList s.name)) := by
  obtain ⟨before, last, p', hsplit, hblock, hstep⟩ := s.exists_step_closing source n p h hnamed
  simp only [finish, List.isEmpty_iff, hnil, if_true] at hstep
  have hall := hblock.append_eq_error (hstep _) more
  rw [hsplit, List.cons_append, List.append_assoc]
  exact hall

/-- Reading gets through segments that are well-formed, if no header on the way is without a name. -/
theorem exists_readsTo_of_wellFormed {prose : List (List Char)} {segments : List Segment}
    (hprose : ∀ line ∈ prose, ∀ name, ¬ IsHeader line name)
    (hnamed : ∀ line ∈ prose ++ segments.flatMap Segment.lines, words line ≠ headerWords)
    (hwell : ∀ s ∈ segments, s.WellFormed) :
    ∃ p', ReadsTo source n .prose (prose ++ segments.flatMap Segment.lines)
      (segments.filterMap Segment.query?) p' := by
  obtain ⟨hnamed, hlines⟩ := List.forall_mem_append.1 hnamed
  refine exists_readsTo ?_
  rw [readLines_prose _ hprose, readLines_segments]
  refine ⟨hnamed, fun s hs => ⟨fun line hline => ?_, hwell s hs⟩, rfl⟩
  exact hlines line (List.mem_flatMap.2 ⟨s, hs, hline⟩)

end Block

namespace Source

open Block (EndsTwice HoldsStatement Segment Segmentation codeOf headerWords readLines)
open Text (isBlank words)

/-- The queries of a source hold statements, but for those of segments whose code ends twice. A
segment with nothing but semicolons is an error, if reading gets to it, unless its code ends twice:
then it is a query without a statement. -/
theorem queries_holdsStatement_iff (source : Source)
    (cut : Segmentation (Text.lines source.text.toList)) :
    (∀ queries, source.queries = .ok queries → queries = cut.segments.filterMap Segment.query? ∧
      ∀ s ∈ cut.segments, ∀ upTo after q, s.closing? = some (upTo, after) → s.query? = some q →
        (HoldsStatement q.body.toList ↔ ¬ EndsTwice (codeOf upTo))) ∧
    ∀ before s rest upTo after, cut.segments = before ++ s :: rest →
      (∀ other ∈ before, other.WellFormed) → s.closing? = some (upTo, after) →
      (∀ line ∈ cut.prose ++ before.flatMap Segment.lines ++ upTo, words line ≠ headerWords) →
      (∀ c ∈ codeOf upTo, isBlank c = true ∨ c = ';') →
        (¬ EndsTwice (codeOf upTo) →
          source.queries = .error (.emptyQuery source.name (String.ofList s.name))) ∧
        (EndsTwice (codeOf upTo) → ∃ first q,
          readLines source.name 1 .prose
              (cut.prose ++ before.flatMap Segment.lines ++ s.header :: upTo) = .ok (first ++ [q]) ∧
            q.name = String.ofList s.name ∧ ¬ HoldsStatement q.body.toList) := by
  obtain ⟨prose, segments, hprose, hlines⟩ := cut
  unfold Source.queries
  dsimp only
  rw [hlines]
  constructor
  · intro queries h
    rw [Block.readLines_prose _ hprose, Block.readLines_segments] at h
    obtain ⟨-, hsegments, rfl⟩ := h
    refine ⟨rfl, fun s hs upTo after q hclosing hq => ?_⟩
    exact s.holdsStatement_query_iff hclosing ((hsegments s hs).2.statement upTo after hclosing) hq
  · rintro before s rest upTo after rfl hwell hclosing hnamed hcode
    have hterminated := s.isTerminated_codeOf hclosing
    obtain ⟨hnamed, hnamedUpTo⟩ := List.forall_mem_append.1 hnamed
    obtain ⟨p, hreads⟩ := Block.exists_readsTo_of_wellFormed hprose hnamed hwell
    constructor
    · intro htwice
      have hnil := (Block.statement_eq_nil_iff hterminated hcode).2 htwice
      have hsplit : prose ++ (before ++ s :: rest).flatMap Segment.lines =
          prose ++ before.flatMap Segment.lines ++
            (s.header :: upTo ++ (after ++ rest.flatMap Segment.lines)) := by
        simp [Segment.lines, (s.exists_of_closing hclosing).1]
      rw [hsplit, hreads, s.readLines_eq_emptyQuery hclosing hnamedUpTo hnil]
      rfl
    · intro htwice
      have hne : Block.statement (codeOf upTo) ≠ [] :=
        mt (Block.statement_eq_nil_iff hterminated hcode).1 (not_not_intro htwice)
      have hall := hreads.append (s.readsTo_closing hclosing hnamedUpTo hne)
      refine ⟨_, _, hall.eq_ok, rfl, ?_⟩
      have hquery : s.query? = some (.ofStatement (String.ofList s.name)
          (Block.statement (codeOf upTo))) := by
        simp [Segment.query?, hclosing]
      rw [s.holdsStatement_query_iff hclosing hne hquery]
      exact not_not_intro htwice

def twoSemicolons : String := "-- name: q\n;;\n"

/-- A block of two semicolons is a query, and its body is a semicolon. -/
theorem queries_twoSemicolons :
    Source.queries ⟨"test.sql", twoSemicolons⟩ = .ok [⟨"q", ";", []⟩] ∧
      ¬ HoldsStatement (Query.mk "q" ";" []).body.toList :=
  ⟨rfl, fun h => h.noTerminator rfl⟩

def semicolons : String := "-- name: a\n; ;\n-- name: b\n -- ;\n;\n"

def semicolonsTwice : Segment where
  name := ['a']
  header := "-- name: a".toList
  body := ["; ;".toList]
  isHeader := rfl
  noHeader line hline name h := by
    cases List.mem_singleton.1 hline
    exact absurd h.length_words (by decide)

def semicolonOnce : Segment where
  name := ['b']
  header := "-- name: b".toList
  body := [" -- ;".toList, ";".toList]
  isHeader := rfl
  noHeader line hline name h := by
    rcases List.mem_cons.1 hline with rfl | hline
    · exact absurd h.length_words (by decide)
    · cases List.mem_singleton.1 hline
      exact absurd h.length_words (by decide)

/-- The first block is a query without a statement, and the second one is an error. -/
theorem queries_holdsStatement_semicolons :
    Source.queries ⟨"test.sql", semicolons⟩ = .error (.emptyQuery "test.sql" "b") ∧
      ∃ first q, readLines "test.sql" 1 .prose semicolonsTwice.lines = .ok (first ++ [q]) ∧
        q.name = "a" ∧ ¬ HoldsStatement q.body.toList := by
  let cut : Segmentation (Text.lines semicolons.toList) :=
    { prose := [], segments := [semicolonsTwice, semicolonOnce], noHeader := by simp, eq := rfl }
  have hsemicolons := (queries_holdsStatement_iff ⟨"test.sql", semicolons⟩ cut).2
  have htwice : semicolonsTwice.closing? = some (semicolonsTwice.body, []) := rfl
  have honce : semicolonOnce.closing? = some (semicolonOnce.body, []) := rfl
  have hwell : semicolonsTwice.WellFormed := by
    rw [Segment.wellFormed_iff htwice]
    exact ⟨by decide, by simp⟩
  have hcode (s : Segment) (h : (codeOf s.body).all (fun c => isBlank c || c == ';') = true) :
      ∀ c ∈ codeOf s.body, isBlank c = true ∨ c = ';' := by
    simpa using h
  constructor
  · exact (hsemicolons [semicolonsTwice] semicolonOnce [] _ _ rfl (by simpa using hwell) honce
      (by decide) (hcode semicolonOnce rfl)).1 (by decide)
  · exact (hsemicolons [] semicolonsTwice [semicolonOnce] _ _ rfl (by simp) htwice
      (by decide) (hcode semicolonsTwice rfl)).2 (by decide)

end Source

end QueryBook
