/-!
Whole numbers as big-endian bytes, negative ones in two's complement.
-/

namespace QueryBook.Wire

/-- The lowest `width` bytes of a number, most significant first. -/
def intBytes : Nat → Int → List UInt8
  | 0, _ => []
  | width + 1, i => intBytes width (i.fdiv 256) ++ [UInt8.ofNat (i.fmod 256).toNat]

theorem length_intBytes (width : Nat) (i : Int) : (intBytes width i).length = width := by
  induction width generalizing i with
  | zero => rfl
  | succ width ih => simp [intBytes, ih]

/-- The number that bytes spell, those before them having spelt `start`. -/
def readOnto (start : Int) (bytes : List UInt8) : Int :=
  bytes.foldl (fun n b => n * 256 + b.toNat) start

/-- The number that bytes spell. -/
def readNat (bytes : List UInt8) : Nat :=
  (readOnto 0 bytes).toNat

/-- The number that bytes spell in two's complement: the first byte has a sign. -/
def readInt : List UInt8 → Int
  | [] => 0
  | b :: rest => readOnto (if b < 128 then b.toNat else (b.toNat : Int) - 256) rest

end QueryBook.Wire
