import QueryBook.Proofs.Wire.Word
import QueryBook.Wire.Encode

/-!
# Whole numbers as parameters

A whole number is passed in the width of the parameter's type, whatever its own width is. It is read
back exactly if it fits into that type, and otherwise nothing is passed but an error
(`writeChecked_integer`).
-/

namespace QueryBook

/-! ## Widths -/

namespace Wire

/-- The number fits into so many bytes, of which the first has the sign. -/
def Fits (bytes : Nat) (i : Int) : Prop :=
  -halfRange (bytes - 1) ≤ i ∧ i < halfRange (bytes - 1)

instance (bytes : Nat) (i : Int) : Decidable (Fits bytes i) :=
  inferInstanceAs (Decidable (_ ∧ _))

theorem halfRange_pos (width : Nat) : 0 < halfRange width := by
  induction width with
  | zero => decide
  | succ width ih =>
    rw [halfRange]
    omega

theorem fits_zero (bytes : Nat) : Fits bytes 0 := by
  have hpos := halfRange_pos (bytes - 1)
  exact ⟨by omega, hpos⟩

theorem readInt_of_fits {bytes : Nat} {i : Int} (hbytes : 0 < bytes) (h : Fits bytes i) :
    readInt (intBytes bytes i) = i := by
  obtain ⟨width, rfl⟩ : ∃ width, bytes = width + 1 := ⟨bytes - 1, by omega⟩
  exact readInt_intBytes width h.1 h.2

end Wire

/-- The width of a type of whole numbers, in bytes. -/
def PgType.integerWidth? : PgType → Option Nat
  | .int2 => some 2
  | .int4 => some 4
  | .int8 => some 8
  | _ => none

theorem PgType.integerWidth_pos {type : PgType} {width : Nat}
    (h : type.integerWidth? = some width) : 0 < width := by
  cases type <;> cases h <;> decide

namespace Value

/-- The whole number that a value is, in whichever of the three widths. -/
def integer? : Value → Option Int
  | int16 n => some n.toInt
  | int32 n => some n.toInt
  | int64 n => some n.toInt
  | _ => none

variable {v : Value} {n : Int}

/-- Every whole number that is a value fits into the greatest width. -/
theorem fits_eight_of_integer (hn : v.integer? = some n) : Wire.Fits 8 n := by
  rw [Wire.Fits, show Wire.halfRange (8 - 1) = 9223372036854775808 from rfl]
  cases v with
  | int16 m =>
    cases hn
    have hlo := m.le_toInt
    have hhi := m.toInt_lt
    omega
  | int32 m =>
    cases hn
    have hlo := m.le_toInt
    have hhi := m.toInt_lt
    omega
  | int64 m =>
    cases hn
    have hlo := m.le_toInt
    have hhi := m.toInt_lt
    omega
  | _ => cases hn

/-! ## Writing -/

/-- Why a number that does not fit cannot be passed. -/
def overflow (n : Int) : EncodeError :=
  if 0 < n then .tooLarge else .tooSmall

/-- A number between the least and the greatest of so many bytes fits into them. -/
theorem writeWithin_eq {least greatest : Int} {width : Nat}
    (hleast : least = -Wire.halfRange (width - 1))
    (hgreatest : greatest = Wire.halfRange (width - 1) - 1) (i : Int) (buffer : List UInt8) :
    writeWithin least greatest width i buffer =
      if Wire.Fits width i then append buffer (Wire.intBytes width i)
      else ⟨.error (overflow i), buffer⟩ := by
  have hpos := Wire.halfRange_pos (width - 1)
  have hfits : Wire.Fits width i ↔ least ≤ i ∧ i ≤ greatest := by
    unfold Wire.Fits
    omega
  unfold writeWithin overflow
  by_cases hhi : greatest < i
  · have hout : ¬Wire.Fits width i := fun h => by
      have hle := (hfits.1 h).2
      omega
    rw [if_pos hhi, if_neg hout, if_pos (by omega)]
  · by_cases hlo : i < least
    · have hout : ¬Wire.Fits width i := fun h => by
        have hle := (hfits.1 h).1
        omega
      rw [if_neg hhi, if_pos hlo, if_neg hout, if_neg (by omega)]
    · rw [if_neg hhi, if_neg hlo, if_pos (hfits.2 ⟨by omega, by omega⟩)]

/-- A number is written in the width of the type if it fits. -/
theorem writeInt_eq {type : PgType} {width : Nat} (htype : type.integerWidth? = some width)
    (hn : Wire.Fits 8 n) (buffer : List UInt8) :
    writeInt n type buffer =
      if Wire.Fits width n then append buffer (Wire.intBytes width n)
      else ⟨.error (overflow n), buffer⟩ := by
  cases type with
  | int2 =>
    cases htype
    exact writeWithin_eq (by decide) (by decide) n buffer
  | int4 =>
    cases htype
    exact writeWithin_eq (by decide) (by decide) n buffer
  | int8 =>
    cases htype
    rw [if_pos hn]
    rfl
  | _ => cases htype

/-- Passing a whole number looks at the number and the type alone. -/
theorem writeChecked_eq_of_integer (hn : v.integer? = some n) (type : PgType)
    (buffer : List UInt8) :
    v.writeChecked type buffer = match type.integerWidth? with
      | some width =>
        if Wire.Fits width n then append buffer (Wire.intBytes width n)
        else ⟨.error (overflow n), buffer⟩
      | none => ⟨.error (.wrongType type), buffer⟩ := by
  have hwrite : v.write type buffer = writeInt n type buffer := by
    cases v <;> cases hn <;> rfl
  have hconverts : v.converts type = type.integerWidth?.isSome := by
    cases v <;> cases hn <;> cases type <;> rfl
  unfold writeChecked
  rw [hconverts, hwrite]
  cases htype : type.integerWidth? with
  | none => rfl
  | some width => exact writeInt_eq htype (fits_eight_of_integer hn) buffer

/-- Bytes that are written for a whole number spell it. -/
theorem readInt_of_writeChecked (hn : v.integer? = some n) {type : PgType}
    {buffer bytes : List UInt8} (h : v.writeChecked type buffer = ⟨.ok false, buffer ++ bytes⟩) :
    Wire.readInt bytes = n := by
  rw [writeChecked_eq_of_integer hn] at h
  cases htype : type.integerWidth? with
  | none =>
    rw [htype] at h
    cases congrArg Writing.outcome h
  | some width =>
    simp only [htype] at h
    by_cases hfits : Wire.Fits width n
    · rw [if_pos hfits] at h
      have hbytes : Wire.intBytes width n = bytes :=
        List.append_cancel_left (congrArg Writing.buffer h)
      rw [← hbytes]
      exact Wire.readInt_of_fits (PgType.integerWidth_pos htype) hfits
    · rw [if_neg hfits] at h
      cases congrArg Writing.outcome h

/-- A whole number is passed to a type of whole numbers just if it fits, in all the bytes that the type
has, and these spell it; one that does not fit is too large or too small, by its sign, and to no other
type is a whole number passed at all. The width that the value itself has makes no difference, and
other numbers have other bytes. -/
theorem writeChecked_integer (hn : v.integer? = some n) (type : PgType) (buffer : List UInt8) :
    (∀ width, type.integerWidth? = some width →
      ((v.writeChecked type buffer).outcome = .ok false ↔ Wire.Fits width n) ∧
      (Wire.Fits width n → ∃ bytes, bytes.length = width ∧ Wire.readInt bytes = n ∧
        v.writeChecked type buffer = ⟨.ok false, buffer ++ bytes⟩) ∧
      (¬Wire.Fits width n →
        0 < n ∧ v.writeChecked type buffer = ⟨.error .tooLarge, buffer⟩ ∨
        n < 0 ∧ v.writeChecked type buffer = ⟨.error .tooSmall, buffer⟩)) ∧
    (type.integerWidth? = none →
      v.writeChecked type buffer = ⟨.error (.wrongType type), buffer⟩) ∧
    (∀ w : Value, w.integer? = some n →
      w.writeChecked type buffer = v.writeChecked type buffer) ∧
    ∀ (w : Value) (m : Int) (bytes other : List UInt8), w.integer? = some m →
      v.writeChecked type buffer = ⟨.ok false, buffer ++ bytes⟩ →
      w.writeChecked type other = ⟨.ok false, other ++ bytes⟩ → m = n := by
  refine ⟨fun width htype => ?_, fun htype => ?_, fun w hw => ?_, fun w m bytes other hw hv hw' => ?_⟩
  · rw [writeChecked_eq_of_integer hn, htype]
    by_cases hfits : Wire.Fits width n
    · have hread := Wire.readInt_of_fits (PgType.integerWidth_pos htype) hfits
      simp only [if_pos hfits]
      refine ⟨⟨fun _ => hfits, fun _ => rfl⟩, fun _ => ?_, fun h => absurd hfits h⟩
      exact ⟨Wire.intBytes width n, Wire.length_intBytes width n, hread, rfl⟩
    · simp only [if_neg hfits]
      have hfails : (Except.error (overflow n) : Except EncodeError Bool) ≠ .ok false := by simp
      refine ⟨⟨fun h => absurd h hfails, fun h => absurd h hfits⟩, fun h => absurd h hfits, fun _ => ?_⟩
      by_cases hpos : 0 < n
      · exact .inl ⟨hpos, by rw [overflow, if_pos hpos]⟩
      · have hne : n ≠ 0 := fun h => hfits (h ▸ Wire.fits_zero width)
        exact .inr ⟨by omega, by rw [overflow, if_neg hpos]⟩
  · rw [writeChecked_eq_of_integer hn, htype]
  · rw [writeChecked_eq_of_integer hw, writeChecked_eq_of_integer hn]
  · rw [← readInt_of_writeChecked hw hw', readInt_of_writeChecked hn hv]

/-- The least number of 32 bits goes into 4 bytes from a value of 64 bits and not into 2. -/
theorem writeChecked_integer_least :
    (int64 (-2147483648)).integer? = some (-2147483648) ∧
      (∃ bytes, bytes.length = 4 ∧ Wire.readInt bytes = -2147483648 ∧
        (int64 (-2147483648)).writeChecked .int4 [7] = ⟨.ok false, [7] ++ bytes⟩) ∧
      (int64 (-2147483648)).writeChecked .int2 [7] = ⟨.error .tooSmall, [7]⟩ ∧
      (int64 (-2147483648)).writeChecked .text [7] = ⟨.error (.wrongType .text), [7]⟩ ∧
      (int32 (-2147483648)).writeChecked .int2 [7] =
        (int64 (-2147483648)).writeChecked .int2 [7] := by
  have hn : (int64 (-2147483648)).integer? = some (-2147483648) := rfl
  obtain ⟨hwidth, -, -, -⟩ := writeChecked_integer hn .int4 [7]
  obtain ⟨hnarrow, -, hsame, -⟩ := writeChecked_integer hn .int2 [7]
  obtain ⟨-, hother, -, -⟩ := writeChecked_integer hn .text [7]
  refine ⟨hn, (hwidth 4 rfl).2.1 (by decide), ?_, hother rfl, hsame (int32 (-2147483648)) rfl⟩
  rcases (hnarrow 2 rfl).2.2 (by decide) with ⟨hpos, -⟩ | ⟨-, hsmall⟩
  · exact absurd hpos (by decide)
  · exact hsmall

end Value

end QueryBook
