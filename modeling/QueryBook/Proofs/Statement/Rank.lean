import QueryBook.Proofs.Statement.Pieces

/-!
# Ranks of parameters

Outranking is a strict order in which any two names compare, so the parameters stand in one possible
order, each of them once (`pairwise_rank`, `nodup_params`), and their numbers are those from 1 to the
number of parameters (`exists_number_iff`).
-/

namespace QueryBook.Statement

/-! ## The order -/

theorem outranks_iff {a b : String} :
    outranks a b = true ↔ b.length < a.length ∨ a.length = b.length ∧ a < b := by
  simp [outranks]

theorem outranks_irrefl (a : String) : outranks a a = false := by
  simp [outranks]

theorem outranks_trans {a b c : String} (hab : outranks a b = true) (hbc : outranks b c = true) :
    outranks a c = true := by
  rw [outranks_iff] at hab hbc ⊢
  rcases hab with hab | ⟨hab, hlt⟩
  · exact .inl (by omega)
  · rcases hbc with hbc | ⟨hbc, hlt'⟩
    · exact .inl (by omega)
    · exact .inr ⟨by omega, String.lt_trans hlt hlt'⟩

/-- Of two names one outranks the other. -/
theorem outranks_of_not {a b : String} (hne : a ≠ b) (h : outranks a b = false) :
    outranks b a = true := by
  have hnot : ¬ (b.length < a.length ∨ a.length = b.length ∧ a < b) := by
    rw [← outranks_iff, h]
    decide
  rw [outranks_iff]
  by_cases hlen : a.length = b.length
  · have hle : ¬ a < b := fun hlt => hnot (.inr ⟨hlen, hlt⟩)
    exact .inr ⟨hlen.symm, Std.lt_of_le_of_ne (String.not_lt.1 hle) hne.symm⟩
  · have hle : ¬ b.length < a.length := fun hlt => hnot (.inl hlt)
    exact .inl (by omega)

/-! ## Ranked names -/

theorem pairwise_insertRanked (name : String) {ranked : List String}
    (h : ranked.Pairwise fun a b => outranks a b = true) :
    (insertRanked name ranked).Pairwise fun a b => outranks a b = true := by
  induction ranked with
  | nil => simp [insertRanked]
  | cons first rest ih =>
    obtain ⟨hfirst, hrest⟩ := List.pairwise_cons.1 h
    unfold insertRanked
    split
    · exact h
    · rename_i hne
      split
      · rename_i hout
        refine List.pairwise_cons.2 ⟨fun other hother => ?_, h⟩
        rcases List.mem_cons.1 hother with rfl | hother
        · exact hout
        · exact outranks_trans hout (hfirst other hother)
      · rename_i hout
        have hafter : outranks first name = true := outranks_of_not hne (by simpa using hout)
        refine List.pairwise_cons.2 ⟨fun other hother => ?_, ih hrest⟩
        rcases mem_insertRanked.1 hother with rfl | hother
        · exact hafter
        · exact hfirst other hother

/-- Of ranked names each outranks all that follow it. -/
theorem pairwise_rank (all : List String) :
    (rank all).Pairwise fun a b => outranks a b = true := by
  induction all with
  | nil => exact .nil
  | cons name rest ih => exact pairwise_insertRanked name ih

theorem nodup_params (s : List Char) : (params s).Nodup := by
  refine (pairwise_rank _).imp ?_
  rintro a b h rfl
  rw [outranks_irrefl] at h
  cases h

/-- The numbers that parameters of the statement have. -/
theorem exists_number_iff {s : List Char} {n : Nat} :
    (∃ name, .param name ∈ pieces s ∧ (params s).idxOf name + 1 = n) ↔
      1 ≤ n ∧ n ≤ (params s).length := by
  constructor
  · rintro ⟨name, hname, rfl⟩
    have hlt := List.idxOf_lt_length_of_mem (mem_params.2 hname)
    omega
  · rintro ⟨hpos, hle⟩
    have hlt : n - 1 < (params s).length := by omega
    refine ⟨(params s)[n - 1], mem_params.1 (List.getElem_mem hlt), ?_⟩
    rw [(nodup_params s).idxOf_getElem]
    omega

end QueryBook.Statement
