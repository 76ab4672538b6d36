/-!
UTF-8: characters as bytes and back. Reading stops at the first byte that cannot be part of a
character and tells where and why, or else puts a replacement character there and goes on.
-/

namespace QueryBook.Text.Utf8

/-- Why bytes are not UTF-8. `start` is the number of bytes before the offending character. -/
inductive Fault where
  /-- The `length` bytes from `start` on begin no character. -/
  | invalid (start length : Nat)
  /-- The bytes end inside the character that begins at `start`. -/
  | incomplete (start : Nat)
  deriving DecidableEq, Repr

def Fault.message : Fault → String
  | .invalid start length =>
    s!"invalid utf-8 sequence of {Nat.repr length} bytes from index {Nat.repr start}"
  | .incomplete start => s!"incomplete utf-8 byte sequence from index {Nat.repr start}"

/-- The bytes `80` to `BF` continue a character. -/
def isTail (b : UInt8) : Bool :=
  0x80 ≤ b && b ≤ 0xBF

/-- The bytes that may stand second, after the given first byte of a longer character: those that
lead to neither a longer spelling than needed, nor a surrogate, nor a number above `10FFFF`. -/
def isSecond (first second : UInt8) : Bool :=
  if first == 0xE0 then 0xA0 ≤ second && second ≤ 0xBF
  else if first == 0xED then 0x80 ≤ second && second ≤ 0x9F
  else if first == 0xF0 then 0x90 ≤ second && second ≤ 0xBF
  else if first == 0xF4 then 0x80 ≤ second && second ≤ 0x8F
  else isTail second

/-- The character with the bits of a first byte above those of its continuation bytes. -/
def ofBits (first : Nat) (tail : List UInt8) : Char :=
  Char.ofNat (tail.foldl (fun n b => n * 0x40 + (b.toNat - 0x80)) first)

/-- The characters that `bytes` spell, `start` bytes having been read before them. -/
def decodeFrom (start : Nat) (bytes : List UInt8) : Except Fault (List Char) :=
  match bytes with
  | [] => .ok []
  | a :: rest =>
    if a < 0x80 then (Char.ofNat a.toNat :: ·) <$> decodeFrom (start + 1) rest
    else if 0xC2 ≤ a && a ≤ 0xDF then
      match rest with
      | [] => .error (.incomplete start)
      | b :: rest =>
        if !isTail b then .error (.invalid start 1)
        else (ofBits (a.toNat - 0xC0) [b] :: ·) <$> decodeFrom (start + 2) rest
    else if 0xE0 ≤ a && a ≤ 0xEF then
      match rest with
      | [] => .error (.incomplete start)
      | b :: rest =>
        if !isSecond a b then .error (.invalid start 1)
        else match rest with
          | [] => .error (.incomplete start)
          | c :: rest =>
            if !isTail c then .error (.invalid start 2)
            else (ofBits (a.toNat - 0xE0) [b, c] :: ·) <$> decodeFrom (start + 3) rest
    else if 0xF0 ≤ a && a ≤ 0xF4 then
      match rest with
      | [] => .error (.incomplete start)
      | b :: rest =>
        if !isSecond a b then .error (.invalid start 1)
        else match rest with
          | [] => .error (.incomplete start)
          | c :: rest =>
            if !isTail c then .error (.invalid start 2)
            else match rest with
              | [] => .error (.incomplete start)
              | d :: rest =>
                if !isTail d then .error (.invalid start 3)
                else (ofBits (a.toNat - 0xF0) [b, c, d] :: ·) <$> decodeFrom (start + 4) rest
    else .error (.invalid start 1)

/-- The text that `bytes` spell. -/
def decode (bytes : List UInt8) : Except Fault String :=
  String.ofList <$> decodeFrom 0 bytes

/-- Stands for bytes that are not UTF-8. -/
def replacement : Char := '\uFFFD'

/-- The number of bytes of the characters that begin with this byte. -/
def width (first : UInt8) : Nat :=
  if first < 0xC0 then 1
  else if first < 0xE0 then 2
  else if first < 0xF0 then 3
  else 4

/-- The characters that `bytes` spell behind the first `skipped` of them. Where no character stands, a
replacement character stands for all bytes that could have begun one. -/
def lossyFrom : (skipped : Nat) → (bytes : List UInt8) → List Char
  | _, [] => []
  | skipped + 1, _ :: rest => lossyFrom skipped rest
  | 0, first :: rest =>
    match decodeFrom 0 ((first :: rest).take (width first)) with
    | .ok read => read ++ lossyFrom (width first - 1) rest
    | .error (.invalid _ length) => replacement :: lossyFrom (length - 1) rest
    | .error (.incomplete _) => [replacement]

/-- The text that `bytes` spell, with replacement characters for what is not UTF-8. -/
def decodeLossy (bytes : List UInt8) : String :=
  String.ofList (lossyFrom 0 bytes)

/-- The bytes that spell a text. -/
def encode (s : String) : List UInt8 :=
  s.toList.flatMap String.utf8EncodeChar

end QueryBook.Text.Utf8
