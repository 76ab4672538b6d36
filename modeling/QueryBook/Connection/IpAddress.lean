import QueryBook.Text.Decimal
import QueryBook.Text.Percent
import QueryBook.Text.Split

/-!
Addresses of the internet protocol in their textual form: four numbers with dots between them, or up
to eight groups with colons between them, of which one run of zeros may be left out.
-/

namespace QueryBook.Connection

/-- A number up to 255 without leading zeros. -/
def isOctet (s : List Char) : Bool :=
  !s.isEmpty && s.all Text.Decimal.isDigit && (s.length == 1 || s.head? != some '0') &&
    Text.Decimal.value s ≤ 255

/-- An address of version 4. -/
def isIpv4 (s : List Char) : Bool :=
  let numbers := Text.split (· == '.') s
  numbers.length == 4 && numbers.all isOctet

/-- One to four hexadecimal digits. -/
def isGroup (s : List Char) : Bool :=
  !s.isEmpty && s.length ≤ 4 && s.all fun c => (Text.Percent.digit? c).isSome

/-- The number of groups in a sequence of them. An address of version 4 may stand at the end, where
`final` holds, and counts as two. -/
def groupCount (final : Bool) : List (List Char) → Option Nat
  | [] => some 0
  | [group] =>
    if isGroup group then some 1
    else if final && isIpv4 group then some 2
    else none
  | group :: rest => if isGroup group then (groupCount final rest).map (· + 1) else none

/-- The number of groups in a text with colons between them. -/
def groups? (final : Bool) (s : List Char) : Option Nat :=
  if s.isEmpty then some 0 else groupCount final (Text.split (· == ':') s)

/-- What stands before and after the first two colons in a row. -/
def cutAtGap : List Char → Option (List Char × List Char)
  | [] => none
  | ':' :: ':' :: rest => some ([], rest)
  | c :: rest => (cutAtGap rest).map fun (before, after) => (c :: before, after)

/-- An address of version 6: eight groups, or fewer where two colons stand for the missing ones. -/
def isIpv6 (s : List Char) : Bool :=
  match cutAtGap s with
  | none => groups? true s == some 8
  | some (before, after) =>
    match groups? false before, groups? true after with
    | some m, some n => m + n ≤ 7
    | _, _ => false

/-- An address of either version. -/
def isIpAddress (s : List Char) : Bool :=
  isIpv4 s || isIpv6 s

end QueryBook.Connection
