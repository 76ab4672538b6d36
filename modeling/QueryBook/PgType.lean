/-!
The types of the database's values. The types that values convert to are told apart; of the others,
whether built into the database or added by an extension, only the name is known.
-/

namespace QueryBook

inductive PgType where
  | bool
  | int2
  | int4
  | int8
  | float4
  | float8
  | text
  | varchar
  | bpchar
  | name
  /-- The type of a literal for which no other type was found. -/
  | unknown
  | bytea
  | timestamp
  | timestamptz
  | other (typeName : String)
  deriving DecidableEq, Repr

namespace PgType

def typeName : PgType → String
  | .bool => "bool"
  | .int2 => "int2"
  | .int4 => "int4"
  | .int8 => "int8"
  | .float4 => "float4"
  | .float8 => "float8"
  | .text => "text"
  | .varchar => "varchar"
  | .bpchar => "bpchar"
  | .name => "name"
  | .unknown => "unknown"
  | .bytea => "bytea"
  | .timestamp => "timestamp"
  | .timestamptz => "timestamptz"
  | .other typeName => typeName

/-- The types with a constructor of their own. -/
def known : List PgType :=
  [.bool, .int2, .int4, .int8, .float4, .float8, .text, .varchar, .bpchar, .name, .unknown, .bytea,
   .timestamp, .timestamptz]

/-- The type of this name. -/
def ofName (typeName : String) : PgType :=
  (known.find? (·.typeName == typeName)).getD (.other typeName)

/-- The built-in types of text. -/
def isText : PgType → Bool
  | .text | .varchar | .bpchar | .name | .unknown => true
  | _ => false

/-- The types that text can be passed as: the built-in types of text, and types of these names. -/
def takesText (t : PgType) : Bool :=
  t.isText || ["citext", "ltree", "lquery", "ltxtquery"].contains t.typeName

/-- Types whose text is preceded by the number of its format, which is 1. -/
def hasFormatByte (t : PgType) : Bool :=
  ["ltree", "lquery", "ltxtquery"].contains t.typeName

end PgType

end QueryBook
