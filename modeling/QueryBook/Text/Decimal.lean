/-!
Whole numbers in decimal digits, written and read.
-/

namespace QueryBook.Text.Decimal

/-- The decimal digits of a number, without leading zeros. -/
def digits (n : Nat) : List Char :=
  Nat.toDigits 10 n

def ofNat (n : Nat) : String :=
  String.ofList (digits n)

/-- A whole number with a minus sign if it is negative. -/
def ofInt (i : Int) : String :=
  if i < 0 then "-" ++ ofNat i.natAbs else ofNat i.natAbs

/-- A number with zeros in front of it up to the given width. -/
def padded (width n : Nat) : String :=
  let ds := digits n
  String.ofList (List.replicate (width - ds.length) '0' ++ ds)

/-- The ten digits of ASCII; no other digit of Unicode counts. -/
def isDigit (c : Char) : Bool :=
  '0' ≤ c && c ≤ '9'

/-- The number that digits spell, most significant first. -/
def value (ds : List Char) : Nat :=
  ds.foldl (fun n c => n * 10 + (c.toNat - '0'.toNat)) 0

/-- Reads a number below a limit: an optional plus sign and at least one digit. -/
def readBelow (limit : Nat) (s : List Char) : Option Nat :=
  let ds := match s with
    | '+' :: rest => rest
    | _ => s
  if ds.isEmpty || !ds.all isDigit then none
  else if value ds < limit then some (value ds) else none

/-- Reads a number from `-limit` up to below `limit`: an optional sign and at least one digit. -/
def readSigned (limit : Nat) : List Char → Option Int
  | '-' :: ds =>
    if ds.isEmpty || !ds.all isDigit then none
    else if value ds ≤ limit then some (-(value ds : Int)) else none
  | s => (readBelow limit s).map Int.ofNat

end QueryBook.Text.Decimal
