import QueryBook.Wire.Word

/-!
# Whole numbers on the wire

A number is read back from the bytes that were written for it, provided that it fits into them as a
signed number (`readInt_intBytes`) or as one without a sign (`readNat_intBytes`).
-/

namespace QueryBook.Wire

/-- Half of what `width + 1` bytes can tell apart: the numbers from `-halfRange width` up to but not
including `halfRange width` fit into them in two's complement. -/
def halfRange : Nat → Int
  | 0 => 128
  | width + 1 => 256 * halfRange width

/-- The last byte counts once and shifts what the bytes before it spell. -/
theorem readInt_append_byte {bytes : List UInt8} (h : bytes ≠ []) (b : UInt8) :
    readInt (bytes ++ [b]) = readInt bytes * 256 + b.toNat := by
  cases bytes with
  | nil => exact absurd rfl h
  | cons first rest => simp [readInt, readOnto, List.foldl_append]

theorem toNat_lowByte (i : Int) : ((UInt8.ofNat (i.fmod 256).toNat).toNat : Int) = i.fmod 256 := by
  have hlo : 0 ≤ i.fmod 256 := Int.fmod_nonneg_of_pos i (by decide)
  have hhi : i.fmod 256 < 256 := Int.fmod_lt_of_pos i (by decide)
  rw [UInt8.toNat_ofNat', Nat.mod_eq_of_lt (by omega)]
  omega

/-- One byte spells a number from -128 to 127. -/
theorem readInt_singleByte {i : Int} (hlo : -128 ≤ i) (hhi : i < 128) :
    readInt [UInt8.ofNat (i.fmod 256).toNat] = i := by
  have hlow := toNat_lowByte i
  have hmod : i.fmod 256 = if 0 ≤ i then i else i + 256 := by
    rw [Int.fmod_eq_emod_of_nonneg i (by decide)]
    split <;> omega
  have hsign : UInt8.ofNat (i.fmod 256).toNat < 128 ↔ 0 ≤ i := by
    rw [UInt8.lt_iff_toNat_lt, show (128 : UInt8).toNat = 128 from rfl]
    split at hmod <;> omega
  simp only [readInt, readOnto, List.foldl_nil, hsign]
  split at hmod <;> split <;> omega

/-- A number comes back from its bytes. -/
theorem readInt_intBytes (width : Nat) {i : Int} (hlo : -halfRange width ≤ i)
    (hhi : i < halfRange width) : readInt (intBytes (width + 1) i) = i := by
  induction width generalizing i with
  | zero => exact readInt_singleByte hlo hhi
  | succ width ih =>
    have hne : intBytes (width + 1) (i.fdiv 256) ≠ [] := by
      intro h
      simpa [h] using length_intBytes (width + 1) (i.fdiv 256)
    have hdiv : i.fdiv 256 = i / 256 := Int.fdiv_eq_ediv_of_nonneg i (by decide)
    simp only [halfRange] at hlo hhi
    rw [intBytes, readInt_append_byte hne, ih (by omega) (by omega), toNat_lowByte]
    exact Int.fdiv_mul_add_fmod i 256

/-- The eight bytes of a number of 64 bits. -/
theorem readInt_intBytes_int64 (n : Int64) : Int64.ofInt (readInt (intBytes 8 n.toInt)) = n := by
  rw [readInt_intBytes 7 n.le_toInt n.toInt_lt, Int64.ofInt_toInt]

/-- A number without a sign comes back from its bytes. -/
theorem readNat_intBytes {width n : Nat} (h : n < Nat.pow 256 width) :
    readNat (intBytes width n) = n := by
  have hread : readOnto 0 (intBytes width n) = n := by
    induction width generalizing n with
    | zero =>
      obtain rfl : n = 0 := by
        rw [Nat.pow_eq, Nat.pow_zero] at h
        omega
      rfl
    | succ width ih =>
      rw [Nat.pow_eq, Nat.pow_succ] at h
      have hdiv : (n : Int).fdiv 256 = ((n / 256 : Nat) : Int) :=
        Int.fdiv_eq_ediv_of_nonneg n (by decide)
      have happend : readOnto 0 (intBytes (width + 1) n) =
          readOnto 0 (intBytes width ((n : Int).fdiv 256)) * 256 +
            (UInt8.ofNat ((n : Int).fmod 256).toNat).toNat :=
        List.foldl_append
      rw [happend, hdiv, ih (by rw [Nat.pow_eq]; omega), toNat_lowByte, ← hdiv]
      exact Int.fdiv_mul_add_fmod n 256
  unfold readNat
  rw [hread, Int.toNat_natCast]

end QueryBook.Wire
