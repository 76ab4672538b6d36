import QueryBook.Proofs.Statement.Tokens

/-!
# A statement taken apart by numbers of bytes

A statement can be rendered without its pieces, from the ranges of bytes in which its parameters stand:
take out the names, number them, and put placeholders between the parts that are left. Every one of these
parts begins and ends between characters, so none of them is missing, and the result is the same
(`tokens_exact`).
-/

namespace QueryBook.Statement

open Text.Utf8

variable {params : List String} {ps : List Piece}

/-! ## Parts of a statement -/

/-- The names in ranges of bytes, without their colons. -/
def sliceNames? (s : List Char) : List (Nat × Nat) → Option (List String)
  | [] => some []
  | (start, stop) :: ranges => do
    let name ← slice? s (start + 1) stop
    let names ← sliceNames? s ranges
    some (String.ofList name :: names)

/-- What is written in place of a range of bytes: the placeholder of the name in it, or the range as it
is if the name is none of the parameters. -/
def sliceToken? (params : List String) (s : List Char) (start stop : Nat) : Option (List Char) := do
  let name ← slice? s (start + 1) stop
  match params.idxOf? (String.ofList name) with
  | some index => some (NumberedPiece.placeholder (index + 1)).render
  | none => slice? s start stop

/-- What follows the first `last` bytes of a statement, with placeholders in place of the ranges. -/
def sliceBody? (params : List String) (s : List Char) (last : Nat) :
    List (Nat × Nat) → Option (List Char)
  | [] => slice? s last (spelling s).length
  | (start, stop) :: ranges => do
    let between ← slice? s last start
    let placeholder ← sliceToken? params s start stop
    let rest ← sliceBody? params s stop ranges
    some (between ++ (placeholder ++ rest))

/-- A statement with its parameters numbered, and the parameters, by taking parts out of it. There is no
result if one of the parts cannot be taken out. -/
def slicesRendered? (s : List Char) : Option (List Char × List String) := do
  let found ← sliceNames? s (tokens s)
  let body ← sliceBody? (rank found) s 0 (tokens s)
  some (body, rank found)

/-! ## Each part can be taken out -/

/-- The part behind the colon of a parameter is its name. -/
theorem slice?_name (before after : List Char) (name : String) :
    slice? (before ++ ((Piece.param name).source ++ after)) ((spelling before).length + 1)
      ((spelling before).length + (Piece.param name).width) = some name.toList := by
  refine slice?_eq_some_iff.2 ⟨before ++ [':'], after, by simp [Piece.source], ?_, ?_⟩
  · exact length_spelling_concat_colon before
  · rw [Piece.width, Piece.source, length_spelling_colon, Nat.add_assoc]

theorem sliceNames?_tokensFrom (before : List Char) (ps : List Piece) :
    sliceNames? (before ++ ps.flatMap Piece.source) (tokensFrom (spelling before).length ps) =
      some (names ps) := by
  induction ps generalizing before with
  | nil => rfl
  | cons p ps ih =>
    have hrest := ih (before ++ p.source)
    rw [length_spelling_append, List.append_assoc, ← List.flatMap_cons] at hrest
    cases p with
    | char c => exact hrest
    | param name =>
      have hname := slice?_name before (ps.flatMap Piece.source) name
      rw [← List.flatMap_cons] at hname
      rw [tokensFrom, sliceNames?, hname, Option.bind_eq_bind, Option.bind_some, Piece.width, hrest,
        Option.bind_eq_bind, Option.bind_some, String.ofList_toList]
      rfl

theorem idxOf?_of_mem {name : String} (h : name ∈ params) :
    params.idxOf? name = some (params.idxOf name) := by
  rw [List.idxOf_eq_getD_idxOf?]
  cases hindex : params.idxOf? name with
  | none => exact absurd h (List.idxOf?_eq_none_iff.1 hindex)
  | some index => rfl

theorem sliceToken?_param {name : String} (h : name ∈ params) (before after : List Char) :
    sliceToken? params (before ++ ((Piece.param name).source ++ after)) (spelling before).length
        ((spelling before).length + (Piece.param name).width) =
      some ((Piece.param name).number params).render := by
  rw [sliceToken?, slice?_name, Option.bind_eq_bind, Option.bind_some, String.ofList_toList,
    idxOf?_of_mem h]
  rfl

/-- All parts can be taken out of the pieces that are left, where `between` stands in front of them and
behind the last parameter. -/
theorem sliceBody?_tokensFrom (hparams : ∀ name, .param name ∈ ps → name ∈ params)
    (done between : List Char) :
    sliceBody? params (done ++ (between ++ ps.flatMap Piece.source)) (spelling done).length
        (tokensFrom (spelling (done ++ between)).length ps) =
      some (between ++ written params ps) := by
  induction ps generalizing done between with
  | nil =>
    refine slice?_eq_some_iff.2 ⟨done, [], by simp [written], rfl, by simp [written]⟩
  | cons p ps ih =>
    have hrest := ih fun name hname => hparams name (List.mem_cons_of_mem p hname)
    have hstop : (spelling (done ++ between)).length + p.width =
        (spelling (done ++ between ++ p.source)).length := by
      rw [length_spelling_append _ p.source, Piece.width]
    cases p with
    | char c =>
      -- nothing is taken out: the character joins those since the last parameter
      have hnext := hrest done (between ++ [c])
      rw [List.append_assoc between [c] (ps.flatMap _), List.append_assoc between [c] (written _ _),
        ← List.append_assoc done between [c]] at hnext
      rw [tokensFrom, hstop]
      exact hnext
    | param name =>
      -- what has been read since the last parameter is taken out, and reading starts anew behind this one
      have hnext := hrest (done ++ between ++ (Piece.param name).source) []
      rw [List.append_nil, List.nil_append, List.nil_append, List.append_assoc _ _ (ps.flatMap _),
        ← List.flatMap_cons, List.append_assoc done between (List.flatMap _ _)] at hnext
      have hbetween : slice? (done ++ (between ++ (Piece.param name :: ps).flatMap Piece.source))
          (spelling done).length (spelling (done ++ between)).length = some between := by
        refine slice?_eq_some_iff.2 ⟨done, _, rfl, rfl, ?_⟩
        rw [length_spelling_append]
      have htoken := sliceToken?_param (hparams name List.mem_cons_self) (done ++ between)
        (ps.flatMap Piece.source)
      rw [List.append_assoc, ← List.flatMap_cons] at htoken
      rw [tokensFrom, sliceBody?, hbetween, htoken, hstop, hnext]
      rfl

/-! ## The whole statement -/

/-- Every part that rendering takes out of a statement can be taken out, and the parts give what is
rendered from the pieces. -/
theorem slicesRendered?_eq (s : List Char) :
    slicesRendered? s = some (render s, Statement.params s) := by
  have hnames := sliceNames?_tokensFrom [] (pieces s)
  have hbody := sliceBody?_tokensFrom (fun name (hname : .param name ∈ pieces s) => mem_params.2 hname)
    [] []
  simp only [List.nil_append, source_pieces, spelling_nil, List.length_nil] at hnames hbody
  have hrank : rank (names (pieces s)) = Statement.params s := rfl
  rw [slicesRendered?, tokens, hnames, Option.bind_eq_bind, Option.bind_some, hrank, hbody,
    Option.bind_eq_bind, Option.bind_some, render_eq_written]

/-- The parameters of a statement stand, from left to right, in just those ranges of its bytes that begin
at a colon with a letter behind it and no colon before it, and end where the letters and underscores end.
No two of these ranges overlap. They lie in the statement and begin and end between characters, so that
each can be taken out of it, and so can every part of which the rendered statement and its parameters are
made. -/
theorem tokens_exact (s : List Char) :
    ((tokens s).Pairwise (fun t u => t.1 < u.1) ∧
        ∀ start stop, (start, stop) ∈ tokens s ↔ IsToken (spelling s) start stop) ∧
      ((tokens s).Pairwise (fun t u => t.2 ≤ u.1) ∧
        ∀ start stop, (start, stop) ∈ tokens s →
          start < stop ∧ stop ≤ (spelling s).length ∧ IsBoundary s start ∧ IsBoundary s stop ∧
            (slice? s start stop).isSome = true) ∧
      slicesRendered? s = some (render s, Statement.params s) := by
  have hapart : (tokens s).Pairwise fun t u => t.2 ≤ u.1 := pairwise_tokensFrom 0 (pieces s)
  refine ⟨⟨?_, fun _ _ => mem_tokens_iff⟩, ⟨hapart, ?_⟩, slicesRendered?_eq s⟩
  · refine hapart.imp_of_mem ?_
    intro t u ht hu hle
    exact Nat.lt_of_lt_of_le (mem_tokens_iff.1 ht).nonempty hle
  · intro start stop hmem
    have htoken := mem_tokens_iff.1 hmem
    obtain ⟨before, name, after, rfl, -, rfl, rfl⟩ := htoken.exists_occurs
    have hstop : IsBoundary (before ++ ':' :: (name ++ after))
        ((spelling before).length + (spelling (':' :: name)).length) := by
      refine ⟨before ++ ':' :: name, after, by simp, ?_⟩
      rw [length_spelling_append]
    have hstart : IsBoundary (before ++ ':' :: (name ++ after)) (spelling before).length :=
      ⟨before, _, rfl, rfl⟩
    refine ⟨htoken.nonempty, hstop.le_length, hstart, hstop, ?_⟩
    exact isSome_slice?_iff.2 ⟨Nat.le_of_lt htoken.nonempty, hstart, hstop⟩

/-- Two parameters without a space between them, behind a character of two bytes and before a cast. -/
def adjacentTokens : List Char :=
  "é:a:b_::c".toList

theorem tokens_exact_adjacent :
    (2, 4) ∈ tokens adjacentTokens ∧ IsToken (spelling adjacentTokens) 2 4 ∧
      ((4, 7) ∈ tokens adjacentTokens ∧ 7 ≤ (spelling adjacentTokens).length ∧
        IsBoundary adjacentTokens 4 ∧ IsBoundary adjacentTokens 7 ∧
        (slice? adjacentTokens 4 7).isSome = true) ∧
      ¬ IsToken (spelling adjacentTokens) 8 10 ∧
      slicesRendered? adjacentTokens = some ("é$2$1::c".toList, ["b_", "a"]) := by
  obtain ⟨⟨-, hmem⟩, ⟨-, hrange⟩, hslices⟩ := tokens_exact adjacentTokens
  have htokens : tokens adjacentTokens = [(2, 4), (4, 7)] := by decide +kernel
  have hfirst : (2, 4) ∈ tokens adjacentTokens := by rw [htokens]; decide
  have hsecond : (4, 7) ∈ tokens adjacentTokens := by rw [htokens]; decide
  have hcast : (8, 10) ∉ tokens adjacentTokens := by rw [htokens]; decide
  have hrendered : (render adjacentTokens, Statement.params adjacentTokens) =
      ("é$2$1::c".toList, ["b_", "a"]) := by decide +kernel
  rw [hrendered] at hslices
  exact ⟨hfirst, (hmem 2 4).1 hfirst, ⟨hsecond, (hrange 4 7 hsecond).2⟩,
    fun h => hcast ((hmem 8 10).2 h), hslices⟩

end QueryBook.Statement
