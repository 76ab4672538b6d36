import QueryBook.Proofs.Block.Grammar
import QueryBook.Proofs.Text.Lines

/-!
# Sources one after another

What is read of a source does not depend on what follows it, and what follows it is read as a source
of its own if it begins with a header (`queries_append`). The reason is that reading a line depends
on the lines before it in nothing but the position, which a header sets anew, and the line's number,
which appears in nothing but errors (`readLines_add`).
-/

namespace QueryBook

namespace LoadError

/-- The line that an error points at. -/
def line? : LoadError → Option Nat
  | .namelessHeader _ line => some line
  | .trailingStatement _ line _ => some line
  | _ => none

/-- The same error `k` lines further on. -/
def shift (k : Nat) : LoadError → LoadError
  | .namelessHeader source line => .namelessHeader source (line + k)
  | .trailingStatement source line query => .trailingStatement source (line + k) query
  | e => e

end LoadError

namespace Block

open Text (words)

variable {source : String} {n : Nat} {p : Position} {lines : List (List Char)} {e : LoadError}

/-! ## Errors -/

theorem finish_eq_error {name : String} {text : List Char} (h : finish source name text = .error e) :
    e = .emptyQuery source name := by
  unfold finish at h
  dsimp only at h
  split at h
  · cases h
    rfl
  · cases h

/-- The number of a line appears in nothing but the error that reading it ends in. -/
theorem Position.step_add (k : Nat) (line : List Char) :
    p.step source (n + k) line = (p.step source n line).mapError (LoadError.shift k) := by
  unfold step
  cases Line.read line with
  | header name => rfl
  | namelessHeader => rfl
  | code text =>
    cases p with
    | prose => rfl
    | closed name =>
      dsimp only
      split <;> rfl
    | block name before =>
      dsimp only
      split
      · cases hfinish : finish source name (before ++ ' ' :: text) with
        | ok query => rfl
        | error e =>
          rw [finish_eq_error hfinish]
          rfl
      · rfl

theorem Position.line?_of_step_eq_error {line : List Char} (h : p.step source n line = .error e)
    {m : Nat} (hm : e.line? = some m) : m = n := by
  unfold step at h
  cases hline : Line.read line with
  | header name =>
    rw [hline] at h
    cases h
  | namelessHeader =>
    rw [hline] at h
    cases h
    exact (Option.some.inj hm).symm
  | code text =>
    rw [hline] at h
    cases p with
    | prose => cases h
    | closed name =>
      dsimp only at h
      split at h
      · cases h
      · cases h
        exact (Option.some.inj hm).symm
    | block name before =>
      dsimp only at h
      split at h
      · cases hfinish : finish source name (before ++ ' ' :: text) with
        | ok query =>
          rw [hfinish] at h
          cases h
        | error e' =>
          rw [hfinish] at h
          cases h
          rw [finish_eq_error hfinish] at hm
          cases hm
      · cases h

/-! ## Lines one after another -/

theorem readLines_cons_of_error {line : List Char} (h : p.step source n line = .error e)
    (rest : List (List Char)) : readLines source n p (line :: rest) = .error e := by
  rw [readLines, h]

theorem readLines_cons_of_ok {line : List Char} {p' : Position} {query : Option Query}
    (h : p.step source n line = .ok (p', query)) (rest : List (List Char)) :
    readLines source n p (line :: rest) =
      (readLines source (n + 1) p' rest).map (query.toList ++ ·) := by
  rw [readLines, h]
  dsimp only
  cases readLines source (n + 1) p' rest <;> rfl

theorem readLines_add (k : Nat) :
    readLines source (n + k) p lines =
      (readLines source n p lines).mapError (LoadError.shift k) := by
  induction lines generalizing n p with
  | nil => rfl
  | cons line rest ih =>
    have hn : n + k + 1 = n + 1 + k := by omega
    have hline : p.step source (n + k) line = _ := Position.step_add k line
    cases hstep : p.step source n line with
    | error e =>
      rw [hstep] at hline
      rw [readLines_cons_of_error hline, readLines_cons_of_error hstep]
      rfl
    | ok result =>
      obtain ⟨p', query⟩ := result
      rw [hstep] at hline
      rw [readLines_cons_of_ok hline, readLines_cons_of_ok hstep, hn, ih]
      cases readLines source (n + 1) p' rest <;> rfl

/-- The lines are read without an error: they give `queries`, and reading goes on from `p'`. -/
def ReadsTo (source : String) (n : Nat) (p : Position) (lines : List (List Char))
    (queries : List Query) (p' : Position) : Prop :=
  ∀ more, readLines source n p (lines ++ more) =
    (readLines source (n + lines.length) p' more).map (queries ++ ·)

theorem ReadsTo.nil : ReadsTo source n p [] [] p := by
  intro more
  show readLines source n p more = (readLines source n p more).map ([] ++ ·)
  cases readLines source n p more <;> rfl

theorem ReadsTo.cons {line : List Char} {query : Option Query} {queries : List Query}
    {p₁ p₂ : Position} (hline : p.step source n line = .ok (p₁, query))
    (hrest : ReadsTo source (n + 1) p₁ lines queries p₂) :
    ReadsTo source n p (line :: lines) (query.toList ++ queries) p₂ := by
  intro more
  have hlength : n + (line :: lines).length = n + 1 + lines.length := by
    rw [List.length_cons]
    omega
  rw [List.cons_append, readLines_cons_of_ok hline, hlength, hrest more]
  cases readLines source (n + 1 + lines.length) p₂ more with
  | error e => rfl
  | ok rest => exact congrArg Except.ok (List.append_assoc _ _ _).symm

theorem ReadsTo.append {others : List (List Char)} {first second : List Query}
    {p₁ p₂ : Position} (hfirst : ReadsTo source n p lines first p₁)
    (hsecond : ReadsTo source (n + lines.length) p₁ others second p₂) :
    ReadsTo source n p (lines ++ others) (first ++ second) p₂ := by
  intro more
  rw [List.append_assoc, hfirst, hsecond, List.length_append, Nat.add_assoc]
  cases readLines source (n + (lines.length + others.length)) p₂ more with
  | error e => rfl
  | ok rest => exact congrArg Except.ok (List.append_assoc _ _ _).symm

theorem ReadsTo.eq_ok {queries : List Query} {p' : Position}
    (h : ReadsTo source n p lines queries p') : readLines source n p lines = .ok queries := by
  have hall := h []
  rw [List.append_nil] at hall
  rw [hall]
  show Except.ok (queries ++ []) = _
  rw [List.append_nil]

theorem exists_readsTo {queries : List Query} (h : readLines source n p lines = .ok queries) :
    ∃ p', ReadsTo source n p lines queries p' := by
  induction lines generalizing n p queries with
  | nil =>
    cases h
    exact ⟨p, .nil⟩
  | cons line rest ih =>
    obtain ⟨p₁, query, more, hline, hrest, rfl⟩ := readLines_cons_eq_ok.1 h
    obtain ⟨p', hreads⟩ := ih hrest
    exact ⟨p', .cons hline hreads⟩

section

variable {name : List Char} (hheader : ∀ line ∈ lines, ∀ other, ¬ IsHeader line other)
  (hnamed : ∀ line ∈ lines, words line ≠ headerWords)
  (hends : ∀ line ∈ lines, endsBlock line = false)

include hheader hnamed hends

/-- Lines that do not end a block make its text longer. -/
theorem readsTo_open {text : List Char} (hopen : isTerminated text = false) :
    ReadsTo source n (.block (String.ofList name) text) lines []
      (.block (String.ofList name) (extend text lines)) := by
  induction lines generalizing n text with
  | nil => exact .nil
  | cons line lines ih =>
    obtain ⟨hheader, hheaders⟩ := List.forall_mem_cons.1 hheader
    obtain ⟨hnamed, hnames⟩ := List.forall_mem_cons.1 hnamed
    obtain ⟨hline, hends⟩ := List.forall_mem_cons.1 hends
    have hafter : isTerminated (text ++ ' ' :: stripComment line) = false := by
      rw [isTerminated_append hopen]
      exact hline
    have hstep : Position.step source n (.block (String.ofList name) text) line =
        .ok (.block (String.ofList name) (text ++ ' ' :: stripComment line), none) :=
      (Position.block_step_eq_ok hheader hopen hline).2 ⟨hnamed, rfl, rfl⟩
    exact .cons hstep (ih hheaders hnames hends hafter)

theorem readsTo_block {header : List Char} (h : IsHeader header name) :
    ReadsTo source n p (header :: lines) [] (.block (String.ofList name) (extend [] lines)) :=
  .cons (Position.step_of_isHeader h) (readsTo_open hheader hnamed hends rfl)

end

/-- An error is that of one line; those before it have none. -/
theorem exists_readsTo_of_error (h : readLines source n p lines = .error e) :
    ∃ before line after queries p', lines = before ++ line :: after ∧
      ReadsTo source n p before queries p' ∧
      p'.step source (n + before.length) line = .error e := by
  induction lines generalizing n p with
  | nil => cases h
  | cons line rest ih =>
    cases hline : p.step source n line with
    | error e' =>
      rw [readLines_cons_of_error hline] at h
      cases h
      exact ⟨[], line, rest, [], p, rfl, .nil, hline⟩
    | ok result =>
      obtain ⟨p₁, query⟩ := result
      rw [readLines_cons_of_ok hline] at h
      cases hrest : readLines source (n + 1) p₁ rest with
      | ok queries =>
        rw [hrest] at h
        cases h
      | error e' =>
        rw [hrest] at h
        cases h
        obtain ⟨before, last, after, queries, p', rfl, hreads, hlast⟩ := ih hrest
        refine ⟨line :: before, last, after, _, p', rfl, .cons hline hreads, ?_⟩
        rw [List.length_cons, Nat.add_comm before.length, ← Nat.add_assoc]
        exact hlast

/-- The first line that is an error decides, whatever follows it. -/
theorem ReadsTo.append_eq_error {queries : List Query} {p' : Position} {line : List Char}
    (h : ReadsTo source n p lines queries p')
    (hline : p'.step source (n + lines.length) line = .error e) (after : List (List Char)) :
    readLines source n p (lines ++ line :: after) = .error e := by
  rw [h, readLines_cons_of_error hline]
  rfl

end Block

namespace Source

open Block (IsHeader readLines ReadsTo)

/-- What a source ends in, when the lines of another source stand before it. -/
def afterLines (k : Nat) (first : List Query) :
    Except LoadError (List Query) → Except LoadError (List Query)
  | .ok queries => .ok (first ++ queries)
  | .error e => .error (e.shift k)

/-- A text that ends at the end of a line may be followed by another one. An error of the first text
is the error of both. Otherwise, if the second begins with a header, its queries follow those of the
first, or its error is the error of both, further on by the lines of the first. An error is that of
the first line that cannot be read, and if it names a line, it names that one. -/
theorem queries_append (name a b : String) (ha : a = "" ∨ ∃ front, a = front ++ "\n") :
    (∀ e, queries ⟨name, a⟩ = .error e → queries ⟨name, a ++ b⟩ = .error e) ∧
      (∀ first, queries ⟨name, a⟩ = .ok first → ∀ header title rest,
        Text.lines b.toList = header :: rest → IsHeader header title →
          queries ⟨name, a ++ b⟩ =
            afterLines (Text.lines a.toList).length first (queries ⟨name, b⟩)) ∧
      ∀ e, queries ⟨name, a⟩ = .error e → ∃ before line after,
        Text.lines a.toList = before ++ line :: after ∧
          (∃ first, readLines name 1 .prose before = .ok first) ∧
          (∀ others, readLines name 1 .prose (before ++ line :: others) = .error e) ∧
          ∀ n, e.line? = some n → n = before.length + 1 := by
  have hlines : Text.lines (a ++ b).toList = Text.lines a.toList ++ Text.lines b.toList := by
    rw [String.toList_append]
    refine Text.lines_append ?_ b.toList
    rcases ha with rfl | ⟨front, rfl⟩
    · exact .inl rfl
    · exact .inr ⟨front.toList, by simp⟩
  unfold queries
  dsimp only
  rw [hlines]
  refine ⟨?_, ?_, ?_⟩
  · intro e h
    obtain ⟨before, line, after, first, p', hsplit, hreads, hline⟩ :=
      Block.exists_readsTo_of_error h
    rw [hsplit, List.append_assoc, List.cons_append]
    exact hreads.append_eq_error hline _
  · intro first h header title rest hb hheader
    obtain ⟨p', hreads⟩ := Block.exists_readsTo h
    -- the header makes the position after the first text irrelevant
    have hnext : readLines name (1 + (Text.lines a.toList).length) p' (header :: rest) =
        readLines name (1 + (Text.lines a.toList).length) .prose (header :: rest) := by
      rw [Block.readLines_header hheader, Block.readLines_header hheader]
    rw [hb, hreads, hnext, Block.readLines_add]
    cases readLines name 1 .prose (header :: rest) <;> rfl
  · intro e h
    obtain ⟨before, line, after, first, p', hsplit, hreads, hline⟩ :=
      Block.exists_readsTo_of_error h
    refine ⟨before, line, after, hsplit, ⟨first, hreads.eq_ok⟩, hreads.append_eq_error hline, ?_⟩
    intro n hn
    rw [Block.Position.line?_of_step_eq_error hline hn, Nat.add_comm]

def openBlock : String := "-- name: open\nSELECT\n"

def twoStatements : String := "-- name: two\nSELECT 1;\nSELECT 2;\n"

/-- The block that is left open gives no query and only moves the error of the text after it; before
another text the error stays where it is. -/
theorem queries_append_openBlock :
    (queries ⟨"s", openBlock⟩ = .ok [] ∧
        queries ⟨"s", twoStatements⟩ = .error (.trailingStatement "s" 3 "two") ∧
        queries ⟨"s", openBlock ++ twoStatements⟩ = .error (.trailingStatement "s" 5 "two")) ∧
      queries ⟨"s", twoStatements ++ openBlock⟩ = .error (.trailingStatement "s" 3 "two") := by
  have hopen : queries ⟨"s", openBlock⟩ = .ok [] := rfl
  have htwo : queries ⟨"s", twoStatements⟩ = .error (.trailingStatement "s" 3 "two") := rfl
  have hheader : IsHeader "-- name: two".toList "two".toList := rfl
  have hopenEnd : openBlock = "" ∨ ∃ front, openBlock = front ++ "\n" :=
    .inr ⟨"-- name: open\nSELECT", rfl⟩
  have htwoEnd : twoStatements = "" ∨ ∃ front, twoStatements = front ++ "\n" :=
    .inr ⟨"-- name: two\nSELECT 1;\nSELECT 2;", rfl⟩
  refine ⟨⟨hopen, htwo, ?_⟩, ?_⟩
  · have hafter := (queries_append "s" openBlock twoStatements hopenEnd).2.1 [] hopen _ _
      ["SELECT 1;".toList, "SELECT 2;".toList] rfl hheader
    rw [hafter, htwo]
    rfl
  · exact (queries_append "s" twoStatements openBlock htwoEnd).1 _ htwo

end Source

end QueryBook
