import Mathlib.Data.List.Pairwise

/-!
# Sorting by a key

Where no two entries of a list have the same key, sorting by the key brings them into strictly
ascending order (`pairwise_mergeSort_key`), whatever order they stood in (`mergeSort_key_eq`).
-/

namespace QueryBook

variable {α κ : Type} [LT κ] [LE κ] [DecidableLE κ] [Std.IsLinearOrder κ] [Std.LawfulOrderLT κ]
  (key : α → κ) {list : List α}

theorem pairwise_mergeSort_key (h : list.Pairwise fun a b => key a ≠ key b) :
    (list.mergeSort fun a b => key a ≤ key b).Pairwise fun a b => key a < key b := by
  have hsorted : (list.mergeSort fun a b => key a ≤ key b).Pairwise
      fun a b => decide (key a ≤ key b) := by
    refine List.pairwise_mergeSort ?_ ?_ list
    · intro a b c hab hbc
      simp only [decide_eq_true_eq] at hab hbc ⊢
      exact Std.le_trans hab hbc
    · intro a b
      rw [Bool.or_eq_true, decide_eq_true_eq, decide_eq_true_eq]
      exact Std.le_total
  have hdistinct : (list.mergeSort fun a b => key a ≤ key b).Pairwise fun a b => key a ≠ key b :=
    (List.mergeSort_perm list _).symm.pairwise h fun hne => hne.symm
  refine hsorted.imp₂ (fun a b hle hne => ?_) hdistinct
  exact Std.lt_of_le_of_ne (of_decide_eq_true hle) hne

/-- Only one order is strictly ascending, and sorting brings a list into it. -/
theorem mergeSort_key_eq {ascending : List α} (hperm : list.Perm ascending)
    (h : ascending.Pairwise fun a b => key a < key b) :
    (list.mergeSort fun a b => key a ≤ key b) = ascending := by
  have hdistinct : list.Pairwise fun a b => key a ≠ key b :=
    hperm.symm.pairwise (h.imp Std.ne_of_lt) fun hne => hne.symm
  refine ((List.mergeSort_perm list _).trans hperm).eq_of_pairwise ?_
    (pairwise_mergeSort_key key hdistinct) h
  intro a b _ _ hab hba
  exact absurd (Std.lt_trans hab hba) Std.lt_irrefl

end QueryBook
