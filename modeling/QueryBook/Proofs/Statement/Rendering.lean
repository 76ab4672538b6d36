import Mathlib.Data.List.Chain
import QueryBook.Query
import QueryBook.Proofs.Statement.Pieces
import QueryBook.Proofs.Text.Decimal
import QueryBook.Proofs.Text.Spacing

/-!
# The text of a rendered statement

Rendering writes a dollar sign and digits in place of each parameter and leaves the other characters
where they are. So neighbours that are apart in the statement stay apart (`apart_written`), and no
parameter is left in the text (`pieces_render`).
-/

namespace QueryBook.Statement

open Text (Apart Spaced isBlank)
open Text.Decimal (isDigit digits)

variable {params : List String} {ps : List Piece}

/-- Pieces as they are rendered. -/
def written (params : List String) (ps : List Piece) : List Char :=
  ps.flatMap fun p => (p.number params).render

theorem render_eq_written (s : List Char) : render s = written (Statement.params s) (pieces s) := by
  rw [render, numbered, List.flatMap_map]
  rfl

/-- A parameter is written in characters of these kinds. -/
theorem mem_render_param {name : String} {c : Char}
    (h : c ∈ ((Piece.param name).number params).render) : c = '$' ∨ isDigit c = true := by
  rcases List.mem_cons.1 h with rfl | h
  · exact .inl rfl
  · exact .inr (Text.Decimal.isDigit_of_mem_digits h)

theorem not_mem_render_param {name : String} {c : Char} (hdollar : c ≠ '$')
    (hdigit : isDigit c = false) : c ∉ ((Piece.param name).number params).render := by
  intro h
  rcases mem_render_param h with h | h
  · exact hdollar h
  · rw [hdigit] at h
    cases h

theorem mem_written {c : Char} (h : c ∈ written params ps) :
    .char c ∈ ps ∨ c = '$' ∨ isDigit c = true := by
  obtain ⟨p, hp, hc⟩ := List.mem_flatMap.1 h
  cases p with
  | char d =>
    cases List.mem_singleton.1 hc
    exact .inl hp
  | param name => exact .inr (mem_render_param hc)

theorem char_mem_pieces {s : List Char} {c : Char} (h : .char c ∈ pieces s) : c ∈ s := by
  rw [← source_pieces s]
  exact List.mem_flatMap.2 ⟨_, h, List.mem_singleton.2 rfl⟩

/-! ## Neighbours -/

/-- A class that no character of a placeholder is in. -/
structure Foreign (q : Char → Bool) : Prop where
  dollar : q '$' = false
  digit : ∀ c, isDigit c = true → q c = false

theorem Foreign.of_mem_render {q : Char → Bool} (hq : Foreign q) {name : String} {c : Char}
    (h : c ∈ ((Piece.param name).number params).render) : q c = false := by
  rcases mem_render_param h with rfl | h
  · exact hq.dollar
  · exact hq.digit c h

/-- What is apart in a statement is apart in its text. -/
theorem apart_written {q : Char → Bool} (hq : Foreign q) (h : Apart q (ps.flatMap Piece.source)) :
    Apart q (written params ps) := by
  induction ps with
  | nil => exact .nil
  | cons p ps ih =>
    have hrest := ih (h.suffix (List.suffix_append _ _))
    cases p with
    | param name => exact hrest.append_left fun c hc => hq.of_mem_render hc
    | char c =>
      refine List.isChain_cons.2 ⟨?_, hrest⟩
      intro d hd
      cases ps with
      | nil => cases hd
      | cons next ps =>
        cases next with
        | char e =>
          cases hd
          exact (List.isChain_cons_cons.1 h).1
        | param name =>
          cases hd
          simp [hq.dollar]

theorem apart_render {q : Char → Bool} (hq : Foreign q) {s : List Char} (h : Apart q s) :
    Apart q (render s) := by
  rw [render_eq_written]
  exact apart_written hq (by rwa [source_pieces])

theorem foreign_dash : Foreign (· == '-') where
  dollar := rfl
  digit c hc := by
    simp only [beq_eq_false_iff_ne]
    rintro rfl
    exact absurd hc (by decide)

theorem foreign_blank : Foreign isBlank where
  dollar := by decide
  digit c hc := by
    simp only [Text.Decimal.isDigit, Bool.and_eq_true, decide_eq_true_eq, Char.le_def,
      UInt32.le_iff_toNat_le] at hc
    have hlow : 48 ≤ c.toNat := hc.1
    have hhigh : c.toNat ≤ 57 := hc.2
    simp [isBlank, Text.blankRanges]
    omega

theorem spaced_render {s : List Char} (h : Spaced s) : Spaced (render s) := by
  constructor
  · intro c hc hblank
    rw [render_eq_written] at hc
    rcases mem_written hc with hmem | rfl | hdigit
    · exact h.space c (char_mem_pieces hmem) hblank
    · rw [foreign_blank.dollar] at hblank
      cases hblank
    · rw [foreign_blank.digit c hdigit] at hblank
      cases hblank
  · -- the spaces on either side are pieces like others
    have hpieces := h.apart
    rw [← source_pieces s] at hpieces
    have hall : Apart isBlank ((Piece.char ' ' :: pieces s ++ [Piece.char ' ']).flatMap Piece.source) := by
      simpa [Piece.source] using hpieces
    have hwritten : Apart isBlank (written (params s) _) := apart_written foreign_blank hall
    rw [render_eq_written]
    simpa [written, Piece.number, NumberedPiece.render] using hwritten

/-! ## Parameters -/

/-- A text without colons is read as its characters, and reading goes on behind it. -/
theorem scan_append_of_ne {a : List Char} (ha : ':' ∉ a) (hne : a ≠ []) (afterColon : Bool)
    (s : List Char) : scan 0 afterColon (a ++ s) = a.map .char ++ scan 0 false s := by
  induction a generalizing afterColon with
  | nil => exact absurd rfl hne
  | cons c a ih =>
    obtain ⟨hc, ha⟩ := not_or.1 (mt List.mem_cons.2 ha)
    have hbeq : (c == ':') = false := beq_eq_false_iff_ne.2 (Ne.symm hc)
    cases a with
    | nil => simp [scan, hbeq]
    | cons d a =>
      have hrest := ih ha (by simp) false
      rw [List.cons_append] at hrest ⊢
      simp [scan, hbeq, hrest]

/-- After a colon no parameter begins, so the next character is written as it is. -/
theorem startsName_written (s : List Char) :
    startsName (written params (scan 0 true s)) = startsName s := by
  cases s with
  | nil => rfl
  | cons c s => simp [scan, written, Piece.number, NumberedPiece.render, startsName]

/-- In what has been written for a text there are characters alone. A colon that began no parameter
begins none now, because what follows it is written as it was. -/
theorem scan_written (s : List Char) (skip : Nat) (afterColon : Bool) :
    scan 0 (afterColon && skip == 0) (written params (scan skip afterColon s)) =
      (written params (scan skip afterColon s)).map .char := by
  induction s generalizing skip afterColon with
  | nil => rfl
  | cons c s ih =>
    cases skip with
    | succ skip => simpa [scan] using ih skip false
    | zero =>
      by_cases hparam : (c == ':' && !afterColon && startsName s) = true
      · -- a placeholder holds no colon
        have hscan : scan 0 afterColon (c :: s) =
            .param (String.ofList (s.takeWhile isNameChar)) ::
              scan (s.takeWhile isNameChar).length false s := by
          simp only [scan, hparam, if_true]
        have hcolon : ':' ∉ ((Piece.param (String.ofList (s.takeWhile isNameChar))).number
            params).render :=
          not_mem_render_param (by decide) (by decide)
        have hrest := ih (s.takeWhile isNameChar).length false
        rw [Bool.false_and] at hrest
        rw [hscan]
        show scan 0 _ (_ ++ written params _) = (_ ++ written params _).map _
        rw [scan_append_of_ne hcolon (List.cons_ne_nil _ _), hrest, List.map_append]
      · have hscan : scan 0 afterColon (c :: s) = .char c :: scan 0 (c == ':') s := by
          simp only [scan, hparam, if_false, Bool.false_eq_true]
        have hrest := ih 0 (c == ':')
        rw [beq_self_eq_true, Bool.and_true] at hrest
        have hnone : (c == ':' && !afterColon &&
            startsName (written params (scan 0 (c == ':') s))) = false := by
          cases hc : c == ':' with
          | false => rfl
          | true =>
            rw [startsName_written]
            simpa [hc] using hparam
        rw [hscan, beq_self_eq_true, Bool.and_true]
        show scan 0 afterColon (c :: written params _) = _ :: (written params _).map _
        rw [← hrest]
        simp only [scan, hnone, if_false, Bool.false_eq_true]

/-- No parameter is left in the text of a statement. -/
theorem pieces_render (s : List Char) : pieces (render s) = (render s).map .char := by
  rw [render_eq_written]
  exact scan_written s 0 false

theorem names_map_char (s : List Char) : names (s.map .char) = [] := by
  induction s with
  | nil => rfl
  | cons c s ih => exact ih

/-- A text without parameters is rendered as it is. -/
theorem ofStatement_eq {s : List Char} (h : pieces s = s.map .char) (name : String) :
    Query.ofStatement name s = ⟨name, String.ofList s, []⟩ := by
  have hparams : Statement.params s = [] := by
    rw [Statement.params, h, names_map_char]
    rfl
  have hrender : render s = s := by
    rw [render_eq_written, h]
    simp [written, List.flatMap_map, Piece.number, NumberedPiece.render]
  rw [Query.ofStatement, hrender, hparams]

end QueryBook.Statement
