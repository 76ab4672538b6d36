import QueryBook.Statement

/-!
# The pieces of a statement and its parameters

The pieces of a statement, written one after another, are the statement (`source_pieces`), and its
numbered parameters are the names in its pieces (`mem_params`).
-/

namespace QueryBook.Statement

/-- A piece as it stands in the statement. -/
def Piece.source : Piece → List Char
  | .char c => [c]
  | .param name => ':' :: name.toList

/-- Reading goes on behind the characters that are skipped. -/
theorem source_scan (s : List Char) (skip : Nat) (afterColon : Bool) :
    (scan skip afterColon s).flatMap Piece.source = s.drop skip := by
  induction s generalizing skip afterColon with
  | nil => simp [scan]
  | cons c s ih =>
    cases skip with
    | succ skip => simpa [scan] using ih skip false
    | zero =>
      simp only [scan]
      split
      · rename_i h
        simp only [Bool.and_eq_true, beq_iff_eq] at h
        -- the name is what is skipped next
        have hname : s.takeWhile isNameChar ++ s.drop (s.takeWhile isNameChar).length = s := by
          obtain ⟨rest, hrest⟩ := List.takeWhile_prefix (l := s) isNameChar
          generalize s.takeWhile isNameChar = name at hrest ⊢
          subst hrest
          simp
        simp [Piece.source, ih, hname, h.1.1]
      · simp [Piece.source, ih]

theorem source_pieces (s : List Char) : (pieces s).flatMap Piece.source = s :=
  source_scan s 0 false

theorem mem_names {ps : List Piece} {name : String} : name ∈ names ps ↔ .param name ∈ ps := by
  induction ps with
  | nil => simp [names]
  | cons p rest ih =>
    cases p with
    | char c => simp [names, ih]
    | param other => simp [names, ih]

theorem mem_insertRanked {name other : String} {ranked : List String} :
    other ∈ insertRanked name ranked ↔ other = name ∨ other ∈ ranked := by
  induction ranked with
  | nil => simp [insertRanked]
  | cons first rest ih =>
    unfold insertRanked
    split
    · rename_i h
      simp [h]
    · split
      · simp
      · rw [List.mem_cons, List.mem_cons, ih, or_left_comm]

theorem mem_rank {name : String} {all : List String} : name ∈ rank all ↔ name ∈ all := by
  induction all with
  | nil => simp [rank]
  | cons first rest ih =>
    show name ∈ insertRanked first (rank rest) ↔ _
    rw [mem_insertRanked, ih, List.mem_cons]

/-- The parameters are the names in the statement. -/
theorem mem_params {s : List Char} {name : String} : name ∈ params s ↔ .param name ∈ pieces s := by
  rw [params, mem_rank, mem_names]

end QueryBook.Statement
