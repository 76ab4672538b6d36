import QueryBook.Proofs.Statement.Replacement
import QueryBook.Proofs.Text.Utf8

/-!
# The numbers of parameters

Which number a parameter has depends on nothing but the set of names in the statement: not on the
order in which they stand there, nor on how often. The numbered names are the only list of these names
in the order of the numbers (`eq_params`), every number is written somewhere, and no parameter is left
without one (`params_canonical`).
-/

namespace QueryBook.Statement

open Text.Utf8 (encode)

variable {s t : List Char} {a b name : String} {n : Nat}

/-! ## The order of the bytes -/

/-- The order of the numbers, by the bytes of the names: a longer name comes first, and names of one
length are in ascending order. -/
def Precedes (a b : String) : Prop :=
  (encode b).length < (encode a).length ∨
    (encode a).length = (encode b).length ∧ encode a < encode b

theorem Precedes.asymm (hab : Precedes a b) (hba : Precedes b a) : False := by
  rcases hab with hab | ⟨hab, hlt⟩
  · rcases hba with hba | ⟨hba, -⟩ <;> omega
  · rcases hba with hba | ⟨-, hlt'⟩
    · omega
    · exact List.lt_irrefl _ (List.lt_trans hlt hlt')

theorem Precedes.ne (hab : Precedes a b) : a ≠ b := by
  rintro rfl
  exact hab.asymm hab

/-- The characters of a name are single bytes. -/
theorem utf8Size_eq_one {c : Char} (hc : isNameChar c = true) : c.utf8Size = 1 := by
  simp only [isNameChar, isLetter, Bool.or_eq_true, Bool.and_eq_true, decide_eq_true_eq, beq_iff_eq,
    Char.le_def] at hc
  rw [Char.utf8Size_eq_one_iff]
  rcases hc with (⟨-, hz⟩ | ⟨-, hz⟩) | rfl
  · exact UInt32.le_trans hz (by decide)
  · exact UInt32.le_trans hz (by decide)
  · decide

theorem IsName.length_encode (h : IsName name.toList) : (encode name).length = name.length := by
  have hchars := h.nameChar
  rw [← String.length_toList, encode]
  generalize name.toList = chars at hchars
  induction chars with
  | nil => rfl
  | cons c rest ih =>
    obtain ⟨hc, hrest⟩ := List.forall_mem_cons.1 hchars
    rw [List.flatMap_cons, List.length_append, String.length_utf8EncodeChar, utf8Size_eq_one hc,
      ih hrest, List.length_cons, Nat.add_comm]

theorem precedes_of_outranks (ha : IsName a.toList) (hb : IsName b.toList)
    (h : outranks a b = true) : Precedes a b := by
  unfold Precedes
  rw [ha.length_encode, hb.length_encode, Text.Utf8.encode_lt_encode_iff]
  exact outranks_iff.1 h

theorem pairwise_params (s : List Char) : (params s).Pairwise Precedes := by
  refine (pairwise_rank _).imp_of_mem ?_
  intro a b ha hb hout
  exact precedes_of_outranks (isName_of_mem_scan (mem_params.1 ha))
    (isName_of_mem_scan (mem_params.1 hb)) hout

/-- The names of a statement can be brought into the order of the numbers in one way only. -/
theorem eq_params {ordered : List String} (hordered : ordered.Pairwise Precedes)
    (hnames : ∀ name, name ∈ ordered ↔ .param name ∈ pieces s) : ordered = params s := by
  have hperm : ordered.Perm (params s) :=
    (List.perm_ext_iff_of_nodup (hordered.imp Precedes.ne) (nodup_params s)).2 fun name =>
      (hnames name).trans mem_params.symm
  refine List.Perm.eq_of_pairwise ?_ hordered (pairwise_params s) hperm
  intro a b _ _ hab hba
  exact (hab.asymm hba).elim

/-! ## Numbers -/

/-- Somewhere in the statement the parameter is written as the placeholder with this number. -/
def HasNumber (s : List Char) (name : String) (n : Nat) : Prop :=
  (.param name, .placeholder n) ∈ (pieces s).zip (numbered s)

theorem mem_zip_numbered {piece : Piece} {written : NumberedPiece} :
    (piece, written) ∈ (pieces s).zip (numbered s) ↔
      piece ∈ pieces s ∧ piece.number (params s) = written := by
  rw [numbered, ← List.map_prod_left_eq_zip, List.mem_map]
  simp

/-- A parameter is written with its place among the parameters, and every place is written. -/
theorem hasNumber_iff : HasNumber s name n ↔ 1 ≤ n ∧ (params s)[n - 1]? = some name := by
  unfold HasNumber
  rw [mem_zip_numbered, ← mem_params, Piece.number, NumberedPiece.placeholder.injEq]
  constructor
  · rintro ⟨hname, rfl⟩
    refine ⟨Nat.le_add_left 1 _, ?_⟩
    rw [Nat.add_sub_cancel, List.getElem?_eq_getElem (List.idxOf_lt_length_of_mem hname),
      List.getElem_idxOf]
  · rintro ⟨hpos, hplace⟩
    obtain ⟨hlt, rfl⟩ := List.getElem?_eq_some_iff.1 hplace
    refine ⟨List.getElem_mem hlt, ?_⟩
    rw [(nodup_params s).idxOf_getElem]
    omega

/-- The parameters are the names in the statement, each once, the longer ones first and those of one
length in the order of their bytes, and there is no other list of which this is true. Wherever a name
stands it is written with its place in this list, so that every number up to their count is written and
no parameter is left in the text. Statements with the same names have the same parameters with the same
numbers. -/
theorem params_canonical (s : List Char) :
    ((∀ name, name ∈ params s ↔ .param name ∈ pieces s) ∧ (params s).Nodup ∧
        (params s).Pairwise Precedes) ∧
      (∀ name n, HasNumber s name n ↔ 1 ≤ n ∧ (params s)[n - 1]? = some name) ∧
      (∀ n, 1 ≤ n → n ≤ (params s).length → ∃ name, HasNumber s name n) ∧
      ((pieces s).length = (numbered s).length ∧
        (∀ name written, (.param name, written) ∈ (pieces s).zip (numbered s) →
          ∃ n, written = .placeholder n ∧ 1 ≤ n ∧ n ≤ (params s).length) ∧
        names (pieces (render s)) = []) ∧
      (∀ ordered : List String, ordered.Pairwise Precedes →
        (∀ name, name ∈ ordered ↔ .param name ∈ pieces s) → ordered = params s) ∧
      ∀ t, (∀ name, .param name ∈ pieces s ↔ .param name ∈ pieces t) →
        params s = params t ∧ ∀ name n, HasNumber s name n ↔ HasNumber t name n := by
  refine ⟨⟨fun _ => mem_params, nodup_params s, pairwise_params s⟩, fun _ _ => hasNumber_iff, ?_,
    ⟨?_, ?_, ?_⟩, fun _ hordered hnames => eq_params hordered hnames, ?_⟩
  · intro n hpos hle
    have hlt : n - 1 < (params s).length := by omega
    exact ⟨(params s)[n - 1], hasNumber_iff.2 ⟨hpos, List.getElem?_eq_getElem hlt⟩⟩
  · rw [numbered, List.length_map]
  · intro name written hwritten
    obtain ⟨hname, rfl⟩ := mem_zip_numbered.1 hwritten
    have hlt := List.idxOf_lt_length_of_mem (mem_params.2 hname)
    exact ⟨_, rfl, Nat.le_add_left 1 _, hlt⟩
  · rw [pieces_render, names_map_char]
  · intro t hsame
    have hparams : params s = params t :=
      eq_params (pairwise_params s) fun name => mem_params.trans (hsame name)
    refine ⟨hparams, fun name n => ?_⟩
    rw [hasNumber_iff, hasNumber_iff, hparams]

/-- Two statements with the names in another order and another number of times. -/
theorem params_canonical_reordered :
    (∀ name, .param name ∈ pieces "SELECT :b, :alpha, :b, :a".toList ↔
        .param name ∈ pieces ":a::int + :alpha + :b".toList) ∧
      params "SELECT :b, :alpha, :b, :a".toList = ["alpha", "a", "b"] ∧
      params ":a::int + :alpha + :b".toList = ["alpha", "a", "b"] ∧
      ∃ name, HasNumber "SELECT :b, :alpha, :b, :a".toList name 3 := by
  have hsame : ∀ name, .param name ∈ pieces "SELECT :b, :alpha, :b, :a".toList ↔
      .param name ∈ pieces ":a::int + :alpha + :b".toList := by
    have hfirst : names (pieces "SELECT :b, :alpha, :b, :a".toList) = ["b", "alpha", "b", "a"] := by
      decide
    have hsecond : names (pieces ":a::int + :alpha + :b".toList) = ["a", "alpha", "b"] := by decide
    intro name
    rw [← mem_names, ← mem_names, hfirst, hsecond]
    grind
  have hparams : params "SELECT :b, :alpha, :b, :a".toList = ["alpha", "a", "b"] := by decide
  obtain ⟨-, -, hwritten, -, -, hcongr⟩ := params_canonical "SELECT :b, :alpha, :b, :a".toList
  refine ⟨hsame, hparams, ?_, hwritten 3 (by decide) (by rw [hparams]; decide)⟩
  rw [← (hcongr _ hsame).1, hparams]

end QueryBook.Statement
