import QueryBook.PgType
import QueryBook.Text.Utf8
import QueryBook.Value
import QueryBook.Wire.Word

/-!
Values as the bytes of a parameter. A whole number takes the width of the parameter's type if it
fits, a floating-point number takes its format if that loses no more than digits, and every other
kind of value has one spelling.
-/

namespace QueryBook

/-- Why a value cannot be passed as a parameter. -/
inductive EncodeError where
  /-- No value of this kind converts to the type. -/
  | wrongType (type : PgType)
  | tooLarge
  | tooSmall
  /-- A finite number that would become infinite. -/
  | outOfRange (x : Binary64)
  deriving DecidableEq

def EncodeError.message : EncodeError → String
  | .wrongType type =>
    "cannot convert between the Rust type `quire::value::Value` and the Postgres type " ++
      s!"`{type.typeName}`"
  | .tooLarge => "number too large to fit in target type"
  | .tooSmall => "number too small to fit in target type"
  | .outOfRange x =>
    (if x.isNegative then "-" else "") ++ Text.Decimal.ofNat x.shortestWhole ++
      " is out of range for FLOAT4"

/-- What an attempt to write a parameter leaves behind. -/
structure Writing where
  /-- Whether the parameter is NULL, unless writing failed. -/
  outcome : Except EncodeError Bool
  buffer : List UInt8

namespace Value

/-- Writes bytes that are not NULL at the end of a buffer. -/
def append (buffer bytes : List UInt8) : Writing :=
  ⟨.ok false, buffer ++ bytes⟩

/-- Writes a whole number in the given number of bytes, if it lies between two limits. -/
def writeWithin (least greatest : Int) (width : Nat) (i : Int) (buffer : List UInt8) : Writing :=
  if greatest < i then ⟨.error .tooLarge, buffer⟩
  else if i < least then ⟨.error .tooSmall, buffer⟩
  else append buffer (Wire.intBytes width i)

/-- Writes a whole number in the width of the type, in 8 bytes if the type has none. -/
def writeInt (i : Int) (type : PgType) (buffer : List UInt8) : Writing :=
  match type with
  | .int2 => writeWithin Int16.minValue.toInt Int16.maxValue.toInt 2 i buffer
  | .int4 => writeWithin Int32.minValue.toInt Int32.maxValue.toInt 4 i buffer
  | _ => append buffer (Wire.intBytes 8 i)

def bytes32 (x : Binary32) : List UInt8 :=
  Wire.intBytes 4 x.bits.toNat

def bytes64 (x : Binary64) : List UInt8 :=
  Wire.intBytes 8 x.bits.toNat

/-- Writes a value as a parameter of the given type without asking whether its kind converts to the
type. -/
def write (v : Value) (type : PgType) (buffer : List UInt8) : Writing :=
  match v with
  | .null => ⟨.ok true, buffer⟩
  | .bool b => append buffer [if b then 1 else 0]
  | .int16 n => writeInt n.toInt type buffer
  | .int32 n => writeInt n.toInt type buffer
  | .int64 n => writeInt n.toInt type buffer
  | .float32 x =>
    if type = .float8 then append buffer (bytes64 x.widen) else append buffer (bytes32 x)
  | .float64 x =>
    if type = .float4 then
      if x.exceeds32 then ⟨.error (.outOfRange x), buffer⟩ else append buffer (bytes32 x.narrow)
    else append buffer (bytes64 x)
  | .text s =>
    append buffer ((if type.hasFormatByte then [1] else []) ++ Text.Utf8.encode s)
  | .bytes b => append buffer b
  | .time t => append buffer (Wire.intBytes 8 t.micros)

/-- Whether values of this kind convert to the type. -/
def converts (v : Value) (type : PgType) : Bool :=
  match v with
  | .null => true
  | .bool _ => type == .bool
  | .int16 _ | .int32 _ | .int64 _ => type == .int2 || type == .int4 || type == .int8
  | .float32 _ | .float64 _ => type == .float4 || type == .float8
  | .text _ => type.takesText
  | .bytes _ => type == .bytea
  | .time _ => type == .timestamp || type == .timestamptz

/-- The types that values are declared to convert to, whatever their kind. -/
def accepts (type : PgType) : Bool :=
  [.bool, .int2, .int4, .int8, .float4, .float8, .text, .varchar, .bpchar, .name, .bytea,
    .timestamp, .timestamptz].contains type

/-- Writes a value as a parameter of the given type. -/
def writeChecked (v : Value) (type : PgType) (buffer : List UInt8) : Writing :=
  if v.converts type then v.write type buffer else ⟨.error (.wrongType type), buffer⟩

/-- The bytes of a value as a parameter, or `none` for NULL. -/
def encode (v : Value) (type : PgType) : Except EncodeError (Option (List UInt8)) :=
  let writing := v.writeChecked type []
  writing.outcome.map fun isNull => if isNull then none else some writing.buffer

end Value

end QueryBook
