import Mathlib.Data.List.TakeWhile
import QueryBook.Patch
import QueryBook.Proofs.Text.Decimal

/-!
# Versions in the names of patches

Behind the prefix the name of a patch has a head, a hyphen and a description. Only the head matters:
it must be digits that spell a number from 1 up to the greatest version (`readVersion_of_head`). In
other words, a version is read from its decimal digits with any number of zeros in front of them
(`readVersion_iff_padded`).
-/

namespace QueryBook.Patch

open Text.Decimal (isDigit value digits)

variable {rest : String} {head description : List Char}

/-! ## Heads -/

/-- The head may be read as a version. -/
structure IsVersion (head : List Char) : Prop where
  digits : ∀ c ∈ head, isDigit c = true
  pos : 1 ≤ value head
  le : value head ≤ maxVersion

theorem readVersion_of_not_mem (h : '-' ∉ rest.toList) : readVersion rest = none := by
  unfold readVersion
  simp [h]

theorem takeWhile_head (hhead : '-' ∉ head) :
    (head ++ '-' :: description).takeWhile (· != '-') = head := by
  have hall : ∀ c ∈ head, (c != '-') = true := by
    intro c hc
    simp only [bne_iff_ne]
    rintro rfl
    exact hhead hc
  rw [List.takeWhile_append_of_pos hall]
  simp

/-- What is read depends on nothing but the text before the first hyphen. -/
theorem readVersion_of_head (hrest : rest.toList = head ++ '-' :: description)
    (hhead : '-' ∉ head) (version : Int64) : readVersion rest = some version ↔
      IsVersion head ∧ version = Int64.ofNat (value head) := by
  unfold readVersion
  rw [hrest, takeWhile_head hhead]
  dsimp only
  rw [Text.Decimal.value_dropWhile_zero]
  by_cases hversion : IsVersion head
  · have hall : head.all isDigit = true := List.all_eq_true.2 hversion.digits
    have hne : head.dropWhile (· == '0') ≠ [] := by
      refine mt (Text.Decimal.value_eq_zero_iff hversion.digits).2 ?_
      have hpos := hversion.pos
      omega
    rw [if_neg (by simp [hall, hne]), if_pos hversion.le]
    exact ⟨fun h => ⟨hversion, (Option.some.inj h).symm⟩, fun h => congrArg some h.2.symm⟩
  · refine iff_of_false (fun h => ?_) fun h => hversion h.1
    split at h
    · cases h
    · rename_i hwritten
      simp only [Bool.or_eq_true, not_or, Bool.not_eq_true, Bool.not_eq_false'] at hwritten
      obtain ⟨⟨-, hall⟩, hne⟩ := hwritten
      have hdigits : ∀ c ∈ head, isDigit c = true := List.all_eq_true.1 hall
      split at h
      · rename_i hle
        have hpos : value head ≠ 0 := by
          refine mt (Text.Decimal.value_eq_zero_iff hdigits).1 fun hnil => ?_
          rw [hnil] at hne
          cases hne
        exact hversion ⟨hdigits, by omega, hle⟩
      · cases h

theorem readVersion_eq_none_of_head (hrest : rest.toList = head ++ '-' :: description)
    (hhead : '-' ∉ head) : readVersion rest = none ↔ ¬ IsVersion head := by
  have hread := readVersion_of_head hrest hhead
  cases h : readVersion rest with
  | none =>
    refine iff_of_true rfl fun hversion => ?_
    have hsome := (hread _).2 ⟨hversion, rfl⟩
    rw [h] at hsome
    cases hsome
  | some version =>
    refine iff_of_false (by simp) ?_
    exact fun hnot => hnot ((hread version).1 h).1

/-- A version that is read comes from a head. -/
theorem exists_head {version : Int64} (h : readVersion rest = some version) :
    ∃ head description, rest.toList = head ++ '-' :: description ∧ IsVersion head ∧
      version = Int64.ofNat (value head) := by
  by_cases hmem : '-' ∈ rest.toList
  · obtain ⟨head, description, hrest, hhead⟩ := List.eq_append_cons_of_mem hmem
    exact ⟨head, description, hrest, (readVersion_of_head hrest hhead version).1 h⟩
  · rw [readVersion_of_not_mem hmem] at h
    cases h

theorem IsVersion.hyphen_not_mem (h : IsVersion head) : '-' ∉ head :=
  fun hmem => absurd (h.digits '-' hmem) (by decide)

theorem IsVersion.toInt_ofNat (h : IsVersion head) :
    (Int64.ofNat (value head)).toInt = value head :=
  Int64.toInt_ofNat_of_lt (Nat.lt_succ_of_le h.le)

/-! ## Digits with zeros in front -/

/-- Zeros and the digits of a version may be read as that version. -/
theorem isVersion_padded {n : Nat} (hpos : 1 ≤ n) (hle : n ≤ maxVersion) (k : Nat) :
    IsVersion (List.replicate k '0' ++ digits n) ∧
      value (List.replicate k '0' ++ digits n) = n := by
  have hvalue : value (List.replicate k '0' ++ digits n) = n := by
    rw [Text.Decimal.value_zeros_append, Text.Decimal.value_digits]
  refine ⟨⟨?_, by omega, by omega⟩, hvalue⟩
  intro c hc
  rcases List.mem_append.1 hc with hc | hc
  · rw [List.eq_of_mem_replicate hc]
    decide
  · exact Text.Decimal.isDigit_of_mem_digits hc

/-- A head is no version if it is all zeros or empty, has a character that is no digit, or is too
great. -/
theorem not_isVersion_iff : ¬ IsVersion head ↔
    (∀ c ∈ head, c = '0') ∨ (∃ c ∈ head, isDigit c = false) ∨ maxVersion < value head := by
  constructor
  · intro hnot
    by_cases hdigits : ∀ c ∈ head, isDigit c = true
    · by_cases hle : value head ≤ maxVersion
      · have hzero : value head = 0 := by
          have hpos : ¬ 1 ≤ value head := fun hpos => hnot ⟨hdigits, hpos, hle⟩
          omega
        have hnil := (Text.Decimal.value_eq_zero_iff hdigits).1 hzero
        exact .inl (by simpa using hnil)
      · exact .inr (.inr (by omega))
    · exact .inr (.inl (by simpa using hdigits))
  · rintro (hzeros | ⟨c, hc, hdigit⟩ | hlt) hversion
    · have hnil : head.dropWhile (· == '0') = [] := by simpa using hzeros
      have hzero := (Text.Decimal.value_eq_zero_iff hversion.digits).2 hnil
      have hpos := hversion.pos
      omega
    · rw [hversion.digits c hc] at hdigit
      cases hdigit
    · have hle := hversion.le
      omega

/-- A version is read just from its decimal digits with zeros in front of them and a hyphen behind,
whatever comes after the hyphen. No version is read if there is no hyphen, or if the text before the
first one is nothing but zeros, or has a character in it that is no digit, or spells a number that
is too great. -/
theorem readVersion_iff_padded (rest : String) :
    (∀ version : Int, (readVersion rest).map Int64.toInt = some version ↔
      1 ≤ version ∧ version ≤ maxVersion ∧ ∃ k description,
        rest.toList = List.replicate k '0' ++ digits version.toNat ++ '-' :: description) ∧
      (readVersion rest = none ↔ '-' ∉ rest.toList ∨ ∃ head description,
        rest.toList = head ++ '-' :: description ∧ '-' ∉ head ∧
          ((∀ c ∈ head, c = '0') ∨ (∃ c ∈ head, isDigit c = false) ∨ maxVersion < value head)) := by
  constructor
  · intro version
    rw [Option.map_eq_some_iff]
    constructor
    · rintro ⟨read, hread, rfl⟩
      obtain ⟨head, description, hrest, hversion, rfl⟩ := exists_head hread
      have hpos := hversion.pos
      have hle := hversion.le
      obtain ⟨k, hk⟩ := Text.Decimal.eq_zeros_append_digits hversion.digits hpos
      rw [hversion.toInt_ofNat]
      refine ⟨by omega, by omega, k, description, ?_⟩
      rw [Int.toNat_natCast, ← hk, hrest]
    · rintro ⟨hpos, hle, k, description, hrest⟩
      obtain ⟨n, rfl⟩ := Int.eq_ofNat_of_zero_le (by omega : 0 ≤ version)
      rw [Int.toNat_natCast] at hrest
      obtain ⟨hversion, hvalue⟩ := isVersion_padded (by omega : 1 ≤ n) (by omega) k
      refine ⟨_, (readVersion_of_head hrest hversion.hyphen_not_mem _).2 ⟨hversion, rfl⟩, ?_⟩
      rw [hversion.toInt_ofNat, hvalue]
  · simp only [← not_isVersion_iff]
    constructor
    · intro hnone
      by_cases hmem : '-' ∈ rest.toList
      · obtain ⟨head, description, hrest, hhead⟩ := List.eq_append_cons_of_mem hmem
        exact .inr ⟨head, description, hrest, hhead,
          (readVersion_eq_none_of_head hrest hhead).1 hnone⟩
      · exact .inl hmem
    · rintro (hmem | ⟨head, description, hrest, hhead, hnot⟩)
      · exact readVersion_of_not_mem hmem
      · exact (readVersion_eq_none_of_head hrest hhead).2 hnot

end QueryBook.Patch
