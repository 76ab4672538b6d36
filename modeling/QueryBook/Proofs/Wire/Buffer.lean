import QueryBook.Wire.Encode

/-!
# Parameters in one buffer

The parameters of a statement are written one after another into one buffer. Writing a value never
looks at what the buffer holds: either it puts bytes behind that which only the value and the type
decide, or it leaves the buffer as it was, because it fails or because the value is NULL
(`writeChecked_frame`).
-/

namespace QueryBook

namespace Writing

/-- What is left behind by adding bytes to a buffer. Of an error nothing is added. -/
def onto (buffer : List UInt8) : Except EncodeError (List UInt8) → Writing
  | .error e => ⟨.error e, buffer⟩
  | .ok bytes => ⟨.ok false, buffer ++ bytes⟩

/-- A way to write that adds the same to every buffer. -/
def Adds (write : List UInt8 → Writing) : Prop :=
  ∃ result, ∀ buffer, write buffer = onto buffer result

theorem adds_error (e : EncodeError) : Adds fun buffer => ⟨.error e, buffer⟩ :=
  ⟨.error e, fun _ => rfl⟩

theorem adds_append (bytes : List UInt8) : Adds fun buffer => Value.append buffer bytes :=
  ⟨.ok bytes, fun _ => rfl⟩

theorem Adds.ite {c : Prop} [Decidable c] {write other : List UInt8 → Writing} (h : Adds write)
    (hother : Adds other) : Adds fun buffer => if c then write buffer else other buffer := by
  by_cases hc : c
  · simpa only [hc, if_true] using h
  · simpa only [hc, if_false] using hother

end Writing

namespace Value

open Writing

theorem adds_writeWithin (least greatest : Int) (width : Nat) (i : Int) :
    Adds (writeWithin least greatest width i) :=
  (adds_error .tooLarge).ite ((adds_error .tooSmall).ite (adds_append _))

theorem adds_writeInt (i : Int) (type : PgType) : Adds (writeInt i type) := by
  cases type with
  | int2 => exact adds_writeWithin _ _ _ i
  | int4 => exact adds_writeWithin _ _ _ i
  | _ => exact adds_append _

theorem adds_write {v : Value} (hv : v ≠ .null) (type : PgType) : Adds (v.write type) := by
  cases v with
  | null => exact absurd rfl hv
  | bool b => exact adds_append _
  | int16 n => exact adds_writeInt _ type
  | int32 n => exact adds_writeInt _ type
  | int64 n => exact adds_writeInt _ type
  | float32 x => exact (adds_append _).ite (adds_append _)
  | float64 x => exact ((adds_error (.outOfRange x)).ite (adds_append _)).ite (adds_append _)
  | text s => exact adds_append _
  | bytes b => exact adds_append _
  | time t => exact adds_append _

theorem adds_writeChecked {v : Value} (hv : v ≠ .null) (type : PgType) :
    Adds (v.writeChecked type) :=
  (adds_write hv type).ite (adds_error (.wrongType type))

theorem writeChecked_null (type : PgType) (buffer : List UInt8) :
    null.writeChecked type buffer = ⟨.ok true, buffer⟩ :=
  rfl

/-- A check that is passed changes nothing about what is written. -/
theorem writeChecked_eq_write {v : Value} {type : PgType} {buffer : List UInt8} {isNull : Bool}
    (h : (v.writeChecked type buffer).outcome = .ok isNull) (other : List UInt8) :
    v.writeChecked type other = v.write type other := by
  unfold writeChecked at h ⊢
  by_cases hconverts : v.converts type = true
  · rw [if_pos hconverts]
  · rw [if_neg hconverts] at h
    cases h

/-- The outcome is NULL just for NULL. Unless bytes are written the buffer is as it was, whatever it
holds; and the bytes that are written stand behind what it holds and are those that go into an empty
buffer, with or without the check. -/
theorem writeChecked_frame (v : Value) (type : PgType) (buffer : List UInt8) :
    ((v.writeChecked type buffer).outcome = .ok true ↔ v = .null) ∧
    ((v.writeChecked type buffer).outcome ≠ .ok false →
      (v.writeChecked type buffer).buffer = buffer) ∧
    ((v.writeChecked type buffer).outcome = .ok false →
      (v.writeChecked type buffer).buffer = buffer ++ (v.writeChecked type []).buffer ∧
      v.writeChecked type [] = v.write type []) ∧
    (v.writeChecked type []).outcome = (v.writeChecked type buffer).outcome := by
  by_cases hv : v = .null
  · subst hv
    simp [writeChecked_null]
  · obtain ⟨result, hwrite⟩ := adds_writeChecked hv type
    cases result with
    | error e => simp [hwrite, onto, hv]
    | ok bytes =>
      have hchecked : (v.writeChecked type buffer).outcome = .ok false := by rw [hwrite, onto]
      refine ⟨by simp [hchecked, hv], fun h => absurd hchecked h, fun _ => ⟨?_, ?_⟩, ?_⟩
      · rw [hwrite, hwrite, onto, onto, List.nil_append]
      · exact writeChecked_eq_write hchecked []
      · rw [hwrite, hwrite, onto, onto]

/-- A number that does not fit, a NULL and a text, each behind a byte that is already there. -/
theorem writeChecked_frame_behindByte :
    (((int64 70000).writeChecked .int2 [9]).outcome ≠ .ok false ∧
      ((int64 70000).writeChecked .int2 [9]).buffer = [9]) ∧
    ((null.writeChecked .int2 [9]).outcome = .ok true ∧
      (null.writeChecked .int2 [9]).buffer = [9]) ∧
    (((text "ab").writeChecked (.other "ltree") [9]).outcome = .ok false ∧
      ((text "ab").writeChecked (.other "ltree") [9]).buffer = [9] ++ [1, 97, 98]) := by
  have htooLarge : ((int64 70000).writeChecked .int2 [9]).outcome = .error .tooLarge := rfl
  have htext : ((text "ab").writeChecked (.other "ltree") [9]).outcome = .ok false := rfl
  have hnull := (writeChecked_frame null .int2 [9]).1.2 rfl
  refine ⟨⟨by simp [htooLarge], ?_⟩, ⟨hnull, ?_⟩, htext, ?_⟩
  · exact (writeChecked_frame (int64 70000) .int2 [9]).2.1 (by simp [htooLarge])
  · exact (writeChecked_frame null .int2 [9]).2.1 (by simp [hnull])
  · exact ((writeChecked_frame (text "ab") (.other "ltree") [9]).2.2.1 htext).1

end Value

end QueryBook
