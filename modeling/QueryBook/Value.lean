import QueryBook.Binary
import QueryBook.Instant

/-!
Values: what is bound to the placeholders of a statement and what is read from a row.
-/

namespace QueryBook

inductive Value where
  | null
  | bool (b : Bool)
  | int16 (n : Int16)
  | int32 (n : Int32)
  | int64 (n : Int64)
  | float32 (x : Binary32)
  | float64 (x : Binary64)
  | text (s : String)
  | bytes (b : List UInt8)
  | time (t : Instant)
  deriving DecidableEq

instance : Inhabited Value := ⟨.null⟩

namespace Value

def isNull : Value → Bool
  | .null => true
  | _ => false

/-- The value of something that may be absent. -/
def ofOption : Option Value → Value
  | none => .null
  | some v => v

/-- Equality of values: of one kind and equal as that kind, floating-point numbers by value, so that
a NaN differs from itself. -/
def equals : Value → Value → Bool
  | .null, .null => true
  | .bool a, .bool b => a == b
  | .int16 a, .int16 b => a == b
  | .int32 a, .int32 b => a == b
  | .int64 a, .int64 b => a == b
  | .float32 a, .float32 b => a.equals b
  | .float64 a, .float64 b => a.equals b
  | .text a, .text b => a == b
  | .bytes a, .bytes b => a == b
  | .time a, .time b => a == b
  | _, _ => false

end Value

end QueryBook
