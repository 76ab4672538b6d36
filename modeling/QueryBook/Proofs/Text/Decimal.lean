import QueryBook.Text.Decimal

/-!
# Decimal digits read back

A number comes back from its digits (`value_digits`), and digits come back from their number unless
they begin with a 0 (`digits_value`). A digit more after the digits of a positive number spells
another number (`value_digits_append_eq_iff`). Different whole numbers are written differently
(`ofInt_inj`).
-/

namespace QueryBook.Text.Decimal

theorem isDigit_eq (c : Char) : isDigit c = c.isDigit := rfl

theorem isDigit_of_mem_digits {n : Nat} {c : Char} (h : c ∈ digits n) : isDigit c = true := by
  rw [isDigit_eq]
  exact Nat.isDigit_of_mem_toDigits (by decide) (by decide) h

theorem digits_ne_nil (n : Nat) : digits n ≠ [] :=
  Nat.toDigits_ne_nil

/-- Digits are read one after another, so that those read first count for more. -/
theorem value_append (a b : List Char) :
    value (a ++ b) = b.foldl (fun n c => n * 10 + (c.toNat - '0'.toNat)) (value a) :=
  List.foldl_append

theorem value_digits (n : Nat) : value (digits n) = n := by
  have hvalue : value (digits n) = Nat.ofDigitChars 10 (digits n) 0 := by
    unfold value
    rw [Nat.ofDigitChars_eq_foldl]
    simp only [Nat.mul_comm]
  rw [hvalue]
  exact Nat.ofDigitChars_toDigits (by decide) (by decide)

/-- Reading more digits does not make a number smaller. -/
theorem le_foldl_digits (n : Nat) (ds : List Char) :
    n ≤ ds.foldl (fun n c => n * 10 + (c.toNat - '0'.toNat)) n := by
  induction ds generalizing n with
  | nil => exact Nat.le_refl n
  | cons c ds ih =>
    have hstep : n ≤ n * 10 + (c.toNat - '0'.toNat) := by omega
    exact Nat.le_trans hstep (ih _)

/-- Digits that do not begin with 0 spell a positive number. -/
theorem value_pos {c : Char} (hdigit : isDigit c = true) (hne : c ≠ '0') (ds : List Char) :
    0 < value (c :: ds) := by
  have hle : '0' ≤ c := by
    unfold isDigit at hdigit
    simp only [Bool.and_eq_true, decide_eq_true_eq] at hdigit
    exact hdigit.1
  have hlt : '0'.toNat < c.toNat :=
    Nat.lt_of_le_of_ne hle fun heq => hne (Char.toNat_inj.1 heq).symm
  have hvalue := le_foldl_digits (0 * 10 + (c.toNat - '0'.toNat)) ds
  show 0 < ds.foldl _ (0 * 10 + (c.toNat - '0'.toNat))
  omega

/-- Only nothing can stand after the digits of a positive number and leave the number as it is. -/
theorem value_digits_append_eq_iff {n : Nat} (hn : 0 < n) (ds : List Char) :
    value (digits n ++ ds) = n ↔ ds = [] := by
  constructor
  · intro h
    cases ds with
    | nil => rfl
    | cons c ds =>
      rw [value_append, value_digits, List.foldl_cons] at h
      have hle := le_foldl_digits (n * 10 + (c.toNat - '0'.toNat)) ds
      omega
  · rintro rfl
    rw [List.append_nil, value_digits]

/-! ## Digits from their number -/

theorem digit_lt_ten {c : Char} (h : isDigit c = true) : c.toNat - '0'.toNat < 10 := by
  unfold isDigit at h
  simp only [Bool.and_eq_true, decide_eq_true_eq] at h
  have hle : c.toNat ≤ '9'.toNat := h.2
  have hzero : '0'.toNat = 48 := rfl
  have hnine : '9'.toNat = 57 := rfl
  omega

/-- A digit is the only one of the number that it stands for. -/
theorem digits_digit {c : Char} (h : isDigit c = true) : digits (c.toNat - '0'.toNat) = [c] := by
  have hlt := digit_lt_ten h
  have hle : '0'.toNat ≤ c.toNat := by
    unfold isDigit at h
    simp only [Bool.and_eq_true, decide_eq_true_eq] at h
    exact h.1
  have hchar : (c.toNat - '0'.toNat).digitChar = c := by
    refine Char.toNat_inj.1 ?_
    rw [Nat.toNat_digitChar_of_lt_ten hlt]
    have hzero : '0'.toNat = 48 := rfl
    omega
  unfold digits
  rw [Nat.toDigits_of_lt_base hlt, hchar]

/-- Digits that are read after a positive number stand behind its own digits. -/
theorem digits_foldl {n : Nat} (hn : 0 < n) {ds : List Char} (hds : ∀ c ∈ ds, isDigit c = true) :
    digits (ds.foldl (fun n c => n * 10 + (c.toNat - '0'.toNat)) n) = digits n ++ ds := by
  induction ds generalizing n with
  | nil => simp
  | cons c ds ih =>
    obtain ⟨hc, hds⟩ := List.forall_mem_cons.1 hds
    have hnext : digits (n * 10 + (c.toNat - '0'.toNat)) = digits n ++ [c] := by
      rw [← digits_digit hc, Nat.mul_comm]
      exact (Nat.toDigits_append_toDigits (by decide) hn (digit_lt_ten hc)).symm
    rw [List.foldl_cons, ih (by omega) hds, hnext, List.append_assoc, List.singleton_append]

/-- Digits that do not begin with 0 are those of the number that they spell. -/
theorem digits_value {c : Char} {ds : List Char} (h : ∀ d ∈ c :: ds, isDigit d = true)
    (hne : c ≠ '0') : digits (value (c :: ds)) = c :: ds := by
  obtain ⟨hc, hds⟩ := List.forall_mem_cons.1 h
  have hpos : 0 < c.toNat - '0'.toNat := by
    have hvalue := value_pos hc hne []
    simpa [value] using hvalue
  have hfirst : value (c :: ds) = ds.foldl (fun n c => n * 10 + (c.toNat - '0'.toNat))
      (c.toNat - '0'.toNat) := by
    unfold value
    rw [List.foldl_cons, Nat.zero_mul, Nat.zero_add]
  rw [hfirst, digits_foldl hpos hds, digits_digit hc, List.singleton_append]

/-! ## Leading zeros -/

/-- Zeros in front of digits do not count. -/
theorem value_zeros_append (k : Nat) (ds : List Char) :
    value (List.replicate k '0' ++ ds) = value ds := by
  induction k with
  | zero => rfl
  | succ k ih =>
    rw [← ih]
    rfl

/-- A text is the zeros that it begins with and what follows them. -/
theorem zeros_append_dropWhile (ds : List Char) :
    ∃ k, ds = List.replicate k '0' ++ ds.dropWhile (· == '0') := by
  induction ds with
  | nil => exact ⟨0, rfl⟩
  | cons c ds ih =>
    by_cases hc : c = '0'
    · subst hc
      obtain ⟨k, hk⟩ := ih
      exact ⟨k + 1, congrArg ('0' :: ·) hk⟩
    · exact ⟨0, by simp [hc]⟩

/-- The zeros in front may be taken off. -/
theorem value_dropWhile_zero (ds : List Char) : value (ds.dropWhile (· == '0')) = value ds := by
  obtain ⟨k, hk⟩ := zeros_append_dropWhile ds
  generalize ds.dropWhile (· == '0') = significant at hk ⊢
  rw [hk, value_zeros_append]

/-- Digits spell zero only if nothing is left of them without zeros in front. -/
theorem value_eq_zero_iff {ds : List Char} (h : ∀ c ∈ ds, isDigit c = true) :
    value ds = 0 ↔ ds.dropWhile (· == '0') = [] := by
  rw [← value_dropWhile_zero]
  have hfirst := List.head?_dropWhile_not (· == '0') ds
  have hsub : ds.dropWhile (· == '0') ⊆ ds := (List.dropWhile_suffix _).subset
  cases hdrop : ds.dropWhile (· == '0') with
  | nil => exact iff_of_true rfl rfl
  | cons c rest =>
    rw [hdrop] at hfirst hsub
    have hpos := value_pos (h c (hsub List.mem_cons_self)) (by simpa using hfirst) rest
    exact iff_of_false (by omega) (by simp)

/-- Digits that spell a positive number are zeros and the digits of that number. -/
theorem eq_zeros_append_digits {ds : List Char} (h : ∀ c ∈ ds, isDigit c = true)
    (hpos : 0 < value ds) : ∃ k, ds = List.replicate k '0' ++ digits (value ds) := by
  obtain ⟨k, hk⟩ := zeros_append_dropWhile ds
  have hfirst := List.head?_dropWhile_not (· == '0') ds
  have hsub : ds.dropWhile (· == '0') ⊆ ds := (List.dropWhile_suffix _).subset
  refine ⟨k, ?_⟩
  rw [← value_dropWhile_zero]
  cases hdrop : ds.dropWhile (· == '0') with
  | nil =>
    have hzero := (value_eq_zero_iff h).2 hdrop
    omega
  | cons c rest =>
    rw [hdrop] at hk hfirst hsub
    rw [digits_value (fun d hd => h d (hsub hd)) (by simpa using hfirst)]
    exact hk

/-! ## Written numbers -/

theorem ofNat_inj {n m : Nat} : ofNat n = ofNat m ↔ n = m := by
  refine ⟨fun h => ?_, fun h => congrArg ofNat h⟩
  have hdigits : digits n = digits m := String.ofList_inj.1 h
  rw [← value_digits n, hdigits, value_digits]

theorem minus_append_ne_ofNat (s : String) (n : Nat) : "-" ++ s ≠ ofNat n := by
  intro h
  have hdigits : '-' :: s.toList = digits n := by
    have h := congrArg String.toList h
    simpa [ofNat] using h
  have hminus : isDigit '-' = true := isDigit_of_mem_digits (hdigits ▸ List.mem_cons_self)
  exact absurd hminus (by decide)

theorem ofInt_inj {i j : Int} : ofInt i = ofInt j ↔ i = j := by
  refine ⟨fun h => ?_, fun h => congrArg ofInt h⟩
  unfold ofInt at h
  by_cases hi : i < 0
  · by_cases hj : j < 0
    · rw [if_pos hi, if_pos hj, String.append_right_inj, ofNat_inj] at h
      omega
    · rw [if_pos hi, if_neg hj] at h
      exact absurd h (minus_append_ne_ofNat _ _)
  · by_cases hj : j < 0
    · rw [if_neg hi, if_pos hj] at h
      exact absurd h.symm (minus_append_ne_ofNat _ _)
    · rw [if_neg hi, if_neg hj, ofNat_inj] at h
      omega

end QueryBook.Text.Decimal
