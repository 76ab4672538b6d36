import QueryBook.Wire.Encode

/-!
# The types that values can be passed as

Whether a value can be passed as a type is asked twice: of the type alone, against a list, and of the
value's kind, when it is written. Every type in the list is one that some value can be passed as. Text
can be passed as more types than the list has; just on these the two do not agree
(`accepts_iff_exists_passes_iff`).
-/

namespace QueryBook

/-- The types of text that are not in the list of types that values are declared to convert to. -/
def PgType.Unlisted (type : PgType) : Prop :=
  type = .unknown ∨ type.typeName ∈ ["citext", "ltree", "lquery", "ltxtquery"]

theorem PgType.Unlisted.takesText {type : PgType} (h : type.Unlisted) : type.takesText = true := by
  rcases h with rfl | hname
  · rfl
  · rw [PgType.takesText, Bool.or_eq_true, List.contains_iff_mem]
    exact .inr hname

/-! ## The check of a value -/

/-- The attempt was not refused for the type, though the value may not have fitted. -/
def Writing.Typed (writing : Writing) : Prop :=
  ∀ rejected, writing.outcome ≠ .error (.wrongType rejected)

namespace Value

variable {v : Value} {type : PgType}

theorem typed_append (buffer bytes : List UInt8) : (append buffer bytes).Typed := by
  intro rejected h
  cases h

theorem typed_writeWithin (least greatest : Int) (width : Nat) (i : Int) (buffer : List UInt8) :
    (writeWithin least greatest width i buffer).Typed := by
  unfold writeWithin
  by_cases hhi : greatest < i
  · intro rejected h
    rw [if_pos hhi] at h
    cases h
  · by_cases hlo : i < least
    · intro rejected h
      rw [if_neg hhi, if_pos hlo] at h
      cases h
    · rw [if_neg hhi, if_neg hlo]
      exact typed_append buffer _

theorem typed_writeInt (i : Int) (type : PgType) (buffer : List UInt8) :
    (writeInt i type buffer).Typed := by
  cases type with
  | int2 => exact typed_writeWithin _ _ _ i buffer
  | int4 => exact typed_writeWithin _ _ _ i buffer
  | _ => exact typed_append buffer _

/-- Writing by itself refuses no type. -/
theorem typed_write (v : Value) (type : PgType) (buffer : List UInt8) :
    (v.write type buffer).Typed := by
  cases v with
  | null =>
    intro rejected h
    cases h
  | int16 n => exact typed_writeInt _ type buffer
  | int32 n => exact typed_writeInt _ type buffer
  | int64 n => exact typed_writeInt _ type buffer
  | float32 x =>
    by_cases htype : type = .float8
    · rw [write, if_pos htype]
      exact typed_append buffer _
    · rw [write, if_neg htype]
      exact typed_append buffer _
  | float64 x =>
    by_cases htype : type = .float4
    · rw [write, if_pos htype]
      by_cases hexceeds : x.exceeds32 = true
      · intro rejected h
        rw [if_pos hexceeds] at h
        cases h
      · rw [if_neg hexceeds]
        exact typed_append buffer _
    · rw [write, if_neg htype]
      exact typed_append buffer _
  | bool b => exact typed_append buffer _
  | text s => exact typed_append buffer _
  | bytes b => exact typed_append buffer _
  | time t => exact typed_append buffer _

/-- The value is not refused for the type, whatever it is written behind. -/
def Passes (v : Value) (type : PgType) : Prop :=
  ∀ buffer, (v.writeChecked type buffer).Typed

theorem passes_iff_converts : v.Passes type ↔ v.converts type = true := by
  constructor
  · intro hpasses
    refine Decidable.by_contra fun hconverts => hpasses [] type ?_
    rw [writeChecked, if_neg hconverts]
  · intro hconverts buffer
    rw [writeChecked, if_pos hconverts]
    exact typed_write v type buffer

/-! ## The list -/

/-- Some value converts to a type in the list. -/
theorem exists_converts_of_accepts (h : accepts type = true) :
    ∃ v : Value, v ≠ .null ∧ v.converts type = true := by
  cases type with
  | bool => exact ⟨.bool true, by simp, rfl⟩
  | int2 | int4 | int8 => exact ⟨.int16 0, by simp, rfl⟩
  | float4 | float8 => exact ⟨.float32 ⟨0⟩, by simp, rfl⟩
  | text | varchar | bpchar | name => exact ⟨.text "", by simp, rfl⟩
  | bytea => exact ⟨.bytes [], by simp, rfl⟩
  | timestamp | timestamptz => exact ⟨.time ⟨0, 0, by decide⟩, by simp, rfl⟩
  | unknown | other typeName => cases h

/-- To a type of which only the name is known nothing but text converts. -/
theorem unlisted_of_converts {typeName : String} (hv : v ≠ .null)
    (h : v.converts (.other typeName) = true) : (PgType.other typeName).Unlisted := by
  cases v with
  | null => exact absurd rfl hv
  | text s => exact .inr (List.contains_iff_mem.1 h)
  | _ => cases h

/-- The types that some value converts to are those in the list and those of text beside it. -/
theorem exists_converts_iff :
    (∃ v : Value, v ≠ .null ∧ v.converts type = true) ↔ accepts type = true ∨ type.Unlisted := by
  constructor
  · rintro ⟨v, hv, hconverts⟩
    cases type with
    | unknown => exact .inr (.inl rfl)
    | other typeName => exact .inr (unlisted_of_converts hv hconverts)
    | _ => exact .inl rfl
  · rintro (hlisted | hunlisted)
    · exact exists_converts_of_accepts hlisted
    · exact ⟨.text "", by simp, hunlisted.takesText⟩

theorem not_unlisted_of_accepts (h : accepts type = true) : ¬type.Unlisted := by
  rintro (rfl | hname)
  · cases h
  · cases type with
    | unknown | other typeName => cases h
    | _ => exact absurd hname (by decide)

/-- Some value is not refused for a type just if the type is in the list or is one of the types of text
that the list does not have. So the list and the check of the values agree on every type but these. -/
theorem accepts_iff_exists_passes_iff (type : PgType) :
    ((∃ v : Value, v ≠ .null ∧ v.Passes type) ↔ accepts type = true ∨ type.Unlisted) ∧
      ((accepts type = true ↔ ∃ v : Value, v ≠ .null ∧ v.Passes type) ↔ ¬type.Unlisted) := by
  simp only [passes_iff_converts, exists_converts_iff, true_and]
  constructor
  · intro hagree hunlisted
    exact not_unlisted_of_accepts (hagree.2 (.inr hunlisted)) hunlisted
  · intro hlisted
    exact ⟨.inl, fun h => h.resolve_right hlisted⟩

/-- Text is passed as a literal for which no type was found, and this type is not in the list. -/
theorem not_accepts_unknown :
    (text "x").writeChecked .unknown [] = ⟨.ok false, [120]⟩ ∧ accepts .unknown = false ∧
      ¬(accepts .unknown = true ↔ ∃ v : Value, v ≠ .null ∧ v.Passes .unknown) := by
  refine ⟨rfl, rfl, fun hagree => ?_⟩
  have hpasses : (text "x").Passes .unknown := passes_iff_converts.2 rfl
  exact absurd (hagree.2 ⟨text "x", by simp, hpasses⟩) (by decide)

end Value

end QueryBook
