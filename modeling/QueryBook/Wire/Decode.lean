import QueryBook.PgType
import QueryBook.Text.Utf8
import QueryBook.Value
import QueryBook.Wire.Word

/-!
Reading the cells of a row. A cell reader reads cells of certain column types and knows whether it
can make anything of a NULL.
-/

namespace QueryBook

/-- The bytes of a cell; `none` is NULL. -/
abbrev Cell := Option (List UInt8)

/-- Why a cell cannot be read. -/
inductive DecodeError where
  /-- The reader with this label does not read columns of this type. -/
  | wrongType (label : String) (column : PgType)
  | null
  | tooFewBytes
  | tooManyBytes
  /-- Bytes are left after a time. -/
  | leftoverTime
  /-- No calendar date can be given for the time. -/
  | timeOutOfRange
  /-- The cell does not begin with the number of the one format that is read. -/
  | otherFormat (column : PgType)
  | notUtf8 (fault : Text.Utf8.Fault)
  deriving DecidableEq, Repr

def DecodeError.message : DecodeError → String
  | .wrongType label column =>
    s!"cannot convert between the Rust type `{label}` and the Postgres type " ++
      s!"`{column.typeName}`"
  | .null => "a Postgres value was `NULL`"
  | .tooFewBytes => "failed to fill whole buffer"
  | .tooManyBytes => "invalid buffer size"
  | .leftoverTime => "invalid message length: timestamp not drained"
  | .timeOutOfRange => "value too large to decode"
  | .otherFormat column => s!"{column.typeName} version 1 only supported"
  | .notUtf8 fault => fault.message

/-- A way to read cells. -/
structure CellReader (α : Type) where
  /-- What the reader reads, as messages name it. -/
  label : String
  /-- The column types that it reads. -/
  accepts : PgType → Bool
  /-- What it makes of the bytes of a cell in a column of the given type. -/
  ofBytes : PgType → List UInt8 → Except DecodeError α
  /-- What it makes of NULL, if anything. -/
  ofNull : Option α

namespace CellReader

variable {α β : Type}

/-- Reads a cell: the column's type is checked first, then whether the cell is NULL. -/
def read (r : CellReader α) (column : PgType) (cell : Cell) : Except DecodeError α :=
  if !r.accepts column then .error (.wrongType r.label column)
  else match cell with
    | some bytes => r.ofBytes column bytes
    | none =>
      match r.ofNull with
      | some a => .ok a
      | none => .error .null

/-- The reader that hands on what another one reads. -/
def map (f : α → β) (r : CellReader α) : CellReader β where
  label := r.label
  accepts := r.accepts
  ofBytes column bytes := (r.ofBytes column bytes).map f
  ofNull := r.ofNull.map f

/-- The reader that also takes NULL. -/
def nullable (r : CellReader α) : CellReader (Option α) where
  label := "core::option::Option<" ++ r.label ++ ">"
  accepts := r.accepts
  ofBytes column bytes := (r.ofBytes column bytes).map some
  ofNull := some none

/-- The bytes themselves if there are exactly as many as asked for. -/
def exactly (width : Nat) (bytes : List UInt8) : Except DecodeError (List UInt8) :=
  if bytes.length < width then .error .tooFewBytes
  else if width < bytes.length then .error .tooManyBytes
  else .ok bytes

/-- A reader of cells of one type that have a fixed width and cannot be NULL. -/
def fixed (label : String) (type : PgType) (width : Nat) (read : List UInt8 → α) :
    CellReader α where
  label := label
  accepts := (· == type)
  ofBytes _ bytes := (exactly width bytes).map read
  ofNull := none

def int16 : CellReader Int16 :=
  fixed "i16" .int2 2 fun b => Int16.ofInt (Wire.readInt b)

def int32 : CellReader Int32 :=
  fixed "i32" .int4 4 fun b => Int32.ofInt (Wire.readInt b)

def int64 : CellReader Int64 :=
  fixed "i64" .int8 8 fun b => Int64.ofInt (Wire.readInt b)

def binary32 : CellReader Binary32 :=
  fixed "f32" .float4 4 fun b => ⟨UInt32.ofNat (Wire.readNat b)⟩

def binary64 : CellReader Binary64 :=
  fixed "f64" .float8 8 fun b => ⟨UInt64.ofNat (Wire.readNat b)⟩

/-- One byte, which is false if it is zero. -/
def bool : CellReader Bool where
  label := "bool"
  accepts := (· == .bool)
  ofBytes
    | _, [b] => .ok (b != 0)
    | _, _ => .error .tooManyBytes
  ofNull := none

/-- The bytes of a text, without the number of its format where the column's type has one. -/
def spelling (column : PgType) (bytes : List UInt8) : Except DecodeError (List UInt8) :=
  if column.hasFormatByte then
    match bytes with
    | 1 :: spelling => .ok spelling
    | _ => .error (.otherFormat column)
  else .ok bytes

/-- Text, from columns of all types that text can be passed as. -/
def text : CellReader String where
  label := "alloc::string::String"
  accepts := PgType.takesText
  ofBytes column bytes :=
    match spelling column bytes with
    | .error e => .error e
    | .ok spelling => (Text.Utf8.decode spelling).mapError .notUtf8
  ofNull := none

def bytes : CellReader (List UInt8) where
  label := "alloc::vec::Vec<u8>"
  accepts := (· == .bytea)
  ofBytes _ bytes := .ok bytes
  ofNull := none

/-- A time in microseconds since the start of 2000. -/
def instant : CellReader Instant where
  label := "chrono::datetime::DateTime<chrono::offset::utc::Utc>"
  accepts := (· == .timestamptz)
  ofBytes _ bytes :=
    if bytes.length < 8 then .error .tooFewBytes
    else if 8 < bytes.length then .error .leftoverTime
    else match Instant.ofMicros? (Wire.readInt bytes) with
      | some t => .ok t
      | none => .error .timeOutOfRange
  ofNull := none

end CellReader

end QueryBook
