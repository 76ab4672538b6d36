/-!
Percent-coding: bytes that a text cannot hold as they are stand in it as a percent sign and two
hexadecimal digits.
-/

namespace QueryBook.Text.Percent

/-- The value of a hexadecimal digit. -/
def digit? (c : Char) : Option Nat :=
  if '0' ≤ c && c ≤ '9' then some (c.toNat - '0'.toNat)
  else if 'a' ≤ c && c ≤ 'f' then some (c.toNat - 'a'.toNat + 10)
  else if 'A' ≤ c && c ≤ 'F' then some (c.toNat - 'A'.toNat + 10)
  else none

/-- The byte with two hexadecimal digits. -/
def byte? (high low : Char) : Option UInt8 :=
  match digit? high, digit? low with
  | some high, some low => some (UInt8.ofNat (16 * high + low))
  | _, _ => none

/-- The bytes that a text stands for. A percent sign without two digits after it stands for
itself. -/
def decode : List Char → List UInt8
  | [] => []
  | '%' :: high :: low :: rest =>
    match byte? high low with
    | some byte => byte :: decode rest
    | none => 0x25 :: decode (high :: low :: rest)
  | c :: rest => String.utf8EncodeChar c ++ decode rest

end QueryBook.Text.Percent
