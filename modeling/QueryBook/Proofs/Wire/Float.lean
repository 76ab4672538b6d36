import QueryBook.Proofs.Binary
import QueryBook.Proofs.Wire.Word
import QueryBook.Wire.Decode
import QueryBook.Wire.Encode

/-!
# Floating-point numbers as parameters

Passing a number of 64 bits to a type of 32 bits fails just if the number is finite and greater than
every finite number of the type. Otherwise it may lose digits, but a finite number stays finite and
an infinity infinite. A number of 32 bits can take the way through a type of 64 bits and back without
a change (`writeChecked_narrowing`).
-/

namespace QueryBook

/-! ## Reading back -/

namespace CellReader

theorem read_fixed {α : Type} (label : String) (type : PgType) {width : Nat}
    (read : List UInt8 → α) {bytes : List UInt8} (h : bytes.length = width) :
    (fixed label type width read).read type (some bytes) = .ok (read bytes) := by
  have haccepts : (fixed label type width read).accepts type = true := beq_self_eq_true type
  have hexactly : exactly width bytes = .ok bytes := by
    unfold exactly
    rw [if_neg (by omega), if_neg (by omega)]
  unfold CellReader.read
  rw [haccepts]
  show (exactly width bytes).map read = _
  rw [hexactly]
  rfl

end CellReader

namespace Value

theorem read_bytes32 (x : Binary32) :
    CellReader.binary32.read .float4 (some (bytes32 x)) = .ok x := by
  have hlength : (bytes32 x).length = 4 := Wire.length_intBytes 4 _
  have hread : Wire.readNat (bytes32 x) = x.bits.toNat := Wire.readNat_intBytes x.bits.toNat_lt
  unfold CellReader.binary32
  rw [CellReader.read_fixed _ _ _ hlength, hread, UInt32.ofNat_toNat]

theorem read_bytes64 (x : Binary64) :
    CellReader.binary64.read .float8 (some (bytes64 x)) = .ok x := by
  have hlength : (bytes64 x).length = 8 := Wire.length_intBytes 8 _
  have hread : Wire.readNat (bytes64 x) = x.bits.toNat := Wire.readNat_intBytes x.bits.toNat_lt
  unfold CellReader.binary64
  rw [CellReader.read_fixed _ _ _ hlength, hread, UInt64.ofNat_toNat]

/-! ## Writing -/

theorem writeChecked_float64_float4 (x : Binary64) (buffer : List UInt8) :
    (float64 x).writeChecked .float4 buffer =
      if x.exceeds32 then ⟨.error (.outOfRange x), buffer⟩
      else ⟨.ok false, buffer ++ bytes32 x.narrow⟩ :=
  rfl

theorem writeChecked_float32_float8 (x : Binary32) (buffer : List UInt8) :
    (float32 x).writeChecked .float8 buffer = ⟨.ok false, buffer ++ bytes64 x.widen⟩ :=
  rfl

/-- A number of 64 bits for a type of 32 bits is refused just if it is finite and its magnitude is
greater than that of every finite number of 32 bits. Otherwise four bytes are written that are read
as a number of the same kind: finite or infinite with the same sign, or no number. A number of 32
bits for a type of 64 bits is written as eight bytes, and what is read from these is written for a
type of 32 bits as the bytes of the number that it was. -/
theorem writeChecked_narrowing (x : Binary64) (buffer : List UInt8) :
    let tooLarge := x.isFinite = true ∧
      ∀ y : Binary32, y.isFinite = true → y.units * 2 ^ 925 < x.units
    (tooLarge → (float64 x).writeChecked .float4 buffer = ⟨.error (.outOfRange x), buffer⟩) ∧
    (¬ tooLarge → ∃ bytes y,
      (float64 x).writeChecked .float4 buffer = ⟨.ok false, buffer ++ bytes⟩ ∧
        CellReader.binary32.read .float4 (some bytes) = .ok y ∧ x.Keeps y) ∧
    ∀ y : Binary32, y.isNaN = false → ∃ bytes z,
      (float32 y).writeChecked .float8 buffer = ⟨.ok false, buffer ++ bytes⟩ ∧
        CellReader.binary64.read .float8 (some bytes) = .ok z ∧
        (float64 z).writeChecked .float4 buffer = ⟨.ok false, buffer ++ bytes32 y⟩ ∧
        CellReader.binary32.read .float4 (some (bytes32 y)) = .ok y := by
  intro tooLarge
  refine ⟨fun hlarge => ?_, fun hsmall => ?_, fun y hnan => ?_⟩
  · rw [writeChecked_float64_float4, if_pos (Binary64.exceeds32_iff.2 hlarge)]
  · have hexceeds : x.exceeds32 = false :=
      Bool.eq_false_iff.2 fun h => hsmall (Binary64.exceeds32_iff.1 h)
    refine ⟨bytes32 x.narrow, x.narrow, ?_, read_bytes32 _, Binary64.keeps_narrow hexceeds⟩
    rw [writeChecked_float64_float4, hexceeds]
    rfl
  · refine ⟨bytes64 y.widen, y.widen, writeChecked_float32_float8 y buffer, read_bytes64 _, ?_,
      read_bytes32 y⟩
    rw [writeChecked_float64_float4, Binary32.exceeds32_widen hnan, Binary32.narrow_widen hnan]
    rfl

/-- The number behind the greatest of 32 bits is refused, that one with a sign is not, and the number
below zero that is nearest to it comes back. -/
theorem writeChecked_narrowing_edges :
    (float64 ⟨0x47EFFFFFE0000001⟩).writeChecked .float4 [7] =
        ⟨.error (.outOfRange ⟨0x47EFFFFFE0000001⟩), [7]⟩ ∧
      (∃ bytes y, (float64 ⟨0xC7EFFFFFE0000000⟩).writeChecked .float4 [7] =
          ⟨.ok false, [7] ++ bytes⟩ ∧
        CellReader.binary32.read .float4 (some bytes) = .ok y ∧
        Binary64.Keeps ⟨0xC7EFFFFFE0000000⟩ y) ∧
      Binary32.isNaN ⟨0x80000001⟩ = false ∧
      ∃ bytes z, (float32 ⟨0x80000001⟩).writeChecked .float8 [7] = ⟨.ok false, [7] ++ bytes⟩ ∧
        CellReader.binary64.read .float8 (some bytes) = .ok z ∧
        (float64 z).writeChecked .float4 [7] = ⟨.ok false, [7] ++ [0x80, 0, 0, 1]⟩ := by
  have hlarge := Binary64.exceeds32_iff.1 (by decide : Binary64.exceeds32 ⟨0x47EFFFFFE0000001⟩ = true)
  have hsmall := mt Binary64.exceeds32_iff.2
    (by decide : ¬ Binary64.exceeds32 ⟨0xC7EFFFFFE0000000⟩ = true)
  have hnan : Binary32.isNaN ⟨0x80000001⟩ = false := by decide
  obtain ⟨hrefused, -, -⟩ := writeChecked_narrowing ⟨0x47EFFFFFE0000001⟩ [7]
  obtain ⟨-, hkept, hback⟩ := writeChecked_narrowing ⟨0xC7EFFFFFE0000000⟩ [7]
  obtain ⟨bytes, z, hwritten, hread, hagain, -⟩ := hback ⟨0x80000001⟩ hnan
  exact ⟨hrefused hlarge, hkept hsmall, hnan, bytes, z, hwritten, hread, hagain⟩

end Value

end QueryBook
