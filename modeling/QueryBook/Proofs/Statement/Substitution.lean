import QueryBook.Proofs.Arguments
import QueryBook.Proofs.Statement.Pieces

/-!
# Named and numbered parameters mean the same

A statement with named parameters is filled with the values of the names; the query made of it is
filled with the values that are bound, by their numbers. Both give the same (`bind_ofStatement`).
-/

namespace QueryBook

namespace Statement

/-- What a statement is made of when its parameters have been replaced by values. -/
inductive Filled where
  | char (c : Char)
  | value (v : Value)

/-- A parameter is replaced by the value of its name. -/
def Piece.fill (valueOf : String → Option Value) : Piece → Option Filled
  | .char c => some (.char c)
  | .param name => (valueOf name).map .value

/-- A placeholder is replaced by the value with its number, counted from 1. -/
def NumberedPiece.fill (values : List Value) : NumberedPiece → Option Filled
  | .char c => some (.char c)
  | .placeholder 0 => none
  | .placeholder (k + 1) => values[k]?.map .value

variable {params : List String} {valueOf : String → Option Value} {values : List Value}

theorem ne_none_of_mem_params (hvalues : params.map valueOf = values.map some) {name : String}
    (hmem : name ∈ params) : valueOf name ≠ none := by
  have hvalue : valueOf name ∈ values.map some := hvalues ▸ List.mem_map_of_mem hmem
  obtain ⟨value, -, hsome⟩ := List.mem_map.1 hvalue
  simp [← hsome]

/-- The value with the number of a parameter is the value of that parameter. -/
theorem fill_number (hvalues : params.map valueOf = values.map some) {piece : Piece}
    (hpiece : ∀ name, piece = .param name → name ∈ params) :
    (piece.number params).fill values = piece.fill valueOf := by
  cases piece with
  | char c => rfl
  | param name =>
    have hmem : name ∈ params := hpiece name rfl
    have hname : params[params.idxOf name]? = some name := by
      rw [List.getElem?_eq_getElem (List.idxOf_lt_length_of_mem hmem), List.getElem_idxOf]
    -- both lists are read at the place of the name
    have hplace : (params.map valueOf)[params.idxOf name]? =
        (values.map some)[params.idxOf name]? := by rw [hvalues]
    rw [List.getElem?_map, List.getElem?_map, hname] at hplace
    show values[params.idxOf name]?.map Filled.value = (valueOf name).map Filled.value
    cases hvalue : values[params.idxOf name]? with
    | none => simp [hvalue] at hplace
    | some value =>
      rw [hvalue] at hplace
      simp only [Option.map_some, Option.some.injEq] at hplace
      rw [hplace]

theorem exists_eq_map_some {α : Type} {options : List (Option α)} (h : ∀ o ∈ options, o ≠ none) :
    ∃ values : List α, options = values.map some := by
  induction options with
  | nil => exact ⟨[], rfl⟩
  | cons o rest ih =>
    obtain ⟨ho, hrest⟩ := List.forall_mem_cons.1 h
    obtain ⟨value, rfl⟩ := Option.ne_none_iff_exists'.1 ho
    obtain ⟨values, rfl⟩ := ih hrest
    exact ⟨value :: values, rfl⟩

/-- All pieces of a statement are filled, and alike in both ways, if the values are those of its
parameters. -/
theorem exists_filled {s : List Char}
    (hvalues : (Statement.params s).map valueOf = values.map some) :
    ∃ filled : List Filled, (numbered s).map (NumberedPiece.fill values) = filled.map some ∧
      (pieces s).map (Piece.fill valueOf) = filled.map some := by
  have hsame : (numbered s).map (NumberedPiece.fill values) =
      (pieces s).map (Piece.fill valueOf) := by
    rw [numbered, List.map_map]
    refine List.map_congr_left fun piece hpiece => ?_
    refine fill_number hvalues fun name hname => ?_
    rw [hname] at hpiece
    exact mem_params.2 hpiece
  have hfilled : ∀ o ∈ (pieces s).map (Piece.fill valueOf), o ≠ none := by
    intro o ho
    obtain ⟨piece, hpiece, rfl⟩ := List.mem_map.1 ho
    cases piece with
    | char c => simp [Piece.fill]
    | param name => simp [Piece.fill, ne_none_of_mem_params hvalues (mem_params.2 hpiece)]
  obtain ⟨filled, hall⟩ := exists_eq_map_some hfilled
  exact ⟨filled, hsame.trans hall, hall⟩

end Statement

namespace Query

open Arguments (Making)
open Statement (Filled Piece NumberedPiece pieces numbered)

/-- Binding succeeds just if every name in the statement has been given a value. -/
theorem exists_bind_ofStatement_iff (name : String) (s : List Char) (making : Making) :
    (∃ values, (ofStatement name s).bind making.arguments = .ok values) ↔
      ∀ param, .param param ∈ pieces s → making.last? param ≠ none := by
  have hget : making.arguments.get? = making.last? := funext making.get?_arguments
  constructor
  · rintro ⟨values, hbind⟩ param hparam
    have hvalues := Arguments.map_get?_of_select (bind_eq_ok_iff.1 hbind)
    rw [hget] at hvalues
    exact Statement.ne_none_of_mem_params hvalues (Statement.mem_params.2 hparam)
  · intro hgiven
    cases hbind : (ofStatement name s).bind making.arguments with
    | ok values => exact ⟨values, rfl⟩
    | error e =>
      -- the parameter that is missing stands in the statement
      obtain ⟨before, after, hparams, -, hnone⟩ :=
        Arguments.exists_of_select_eq_error (bind_eq_error hbind).2
      have hmem : e.param ∈ Statement.params s := by
        show e.param ∈ (ofStatement name s).params
        simp [hparams]
      rw [hget] at hnone
      exact absurd hnone (hgiven e.param (Statement.mem_params.1 hmem))

/-- Binding the query of a statement succeeds just if every name in the statement has been given a
value. Then the statement filled by names, with the values given last, and the query filled by
numbers, with the values that are bound, are the same. Otherwise the error names the query and the
first of its parameters that has no value. Values of other names do not matter. -/
theorem bind_ofStatement (name : String) (s : List Char) (making : Making) :
    ((pieces s).flatMap Piece.source = s ∧
        (ofStatement name s).body.toList = (numbered s).flatMap NumberedPiece.render) ∧
      ((∃ values, (ofStatement name s).bind making.arguments = .ok values) ↔
        ∀ param, .param param ∈ pieces s → making.last? param ≠ none) ∧
      (∀ values, (ofStatement name s).bind making.arguments = .ok values →
        ∃ filled : List Filled, (numbered s).map (NumberedPiece.fill values) = filled.map some ∧
          (pieces s).map (Piece.fill making.last?) = filled.map some) ∧
      (∀ e, (ofStatement name s).bind making.arguments = .error e → e.query = name ∧
        ∃ before after, (ofStatement name s).params = before ++ e.param :: after ∧
          (∀ param ∈ before, making.last? param ≠ none) ∧ making.last? e.param = none) ∧
      ∀ other : Making,
        (∀ param, .param param ∈ pieces s → other.last? param = making.last? param) →
        (ofStatement name s).bind other.arguments = (ofStatement name s).bind making.arguments := by
  have hget : making.arguments.get? = making.last? := funext making.get?_arguments
  refine ⟨⟨Statement.source_pieces s, String.toList_ofList⟩,
    exists_bind_ofStatement_iff name s making, ?_, ?_, ?_⟩
  · intro values hbind
    have hvalues := Arguments.map_get?_of_select (bind_eq_ok_iff.1 hbind)
    rw [hget] at hvalues
    exact Statement.exists_filled hvalues
  · intro e hbind
    obtain ⟨hquery, hselect⟩ := bind_eq_error hbind
    have hfirst := Arguments.exists_of_select_eq_error hselect
    rw [hget] at hfirst
    exact ⟨hquery, hfirst⟩
  · intro other hother
    unfold bind
    rw [Arguments.select_congr]
    intro param hparam
    rw [other.get?_arguments, making.get?_arguments]
    exact hother param (Statement.mem_params.1 hparam)

end Query

end QueryBook
