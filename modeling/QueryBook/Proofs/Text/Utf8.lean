import QueryBook.Text.Utf8

/-!
# The order of texts and of their bytes

Texts are ordered by the code points of their characters. The bytes of their UTF-8 are in the same
order (`encode_lt_encode`).
-/

namespace QueryBook.Text.Utf8

/-- What is left of a number without its last `count` digits of six bits. -/
def leading : Nat → Nat → Nat
  | 0, v => v
  | count + 1, v => leading count (v / 64)

/-- A number as bytes: the first has the leading digits on top of a mark, each of the `count` others
has the next six bits. -/
def spell (mark : Nat) : Nat → Nat → List UInt8
  | 0, v => [UInt8.ofNat (mark + v)]
  | count + 1, v => spell mark count (v / 64) ++ [UInt8.ofNat (128 + v % 64)]

/-- The number of bytes behind the first one in the spelling of a character. -/
def tailCount (v : Nat) : Nat :=
  if v < 0x80 then 0 else if v < 0x800 then 1 else if v < 0x10000 then 2 else 3

/-- The least first byte of a spelling with so many bytes behind it. -/
def firstMark : Nat → Nat
  | 0 => 0
  | 1 => 0xC0
  | 2 => 0xE0
  | 3 => 0xF0
  | _ => 0xF8

theorem ofNat_lt_ofNat {m n : Nat} (h : m < n) (hn : n < 256) : UInt8.ofNat m < UInt8.ofNat n := by
  rw [UInt8.lt_iff_toNat_lt, UInt8.toNat_ofNat', UInt8.toNat_ofNat']
  omega

theorem spell_eq_cons (mark count v : Nat) :
    ∃ rest, spell mark count v = UInt8.ofNat (mark + leading count v) :: rest := by
  induction count generalizing v with
  | zero => exact ⟨[], rfl⟩
  | succ count ih =>
    obtain ⟨rest, hrest⟩ := ih (v / 64)
    exact ⟨rest ++ [UInt8.ofNat (128 + v % 64)], by simp [spell, leading, hrest]⟩

/-- Spellings of one length are in the order of the numbers, whatever follows them. -/
theorem spell_append_lt {mark count v w : Nat} (h : v < w) (hw : mark + leading count w < 256)
    (s t : List UInt8) : spell mark count v ++ s < spell mark count w ++ t := by
  induction count generalizing v w s t with
  | zero => exact List.cons_lt_cons_iff.2 (.inl (ofNat_lt_ofNat (by omega) hw))
  | succ count ih =>
    simp only [spell, List.append_assoc, List.singleton_append]
    by_cases hlead : v / 64 < w / 64
    · exact ih hlead hw _ _
    · -- all but the last byte are the same
      have hsame : v / 64 = w / 64 := by omega
      rw [hsame]
      refine List.append_left_lt (List.cons_lt_cons_iff.2 (.inl (ofNat_lt_ofNat ?_ ?_)))
      · omega
      · omega

theorem toNat_lt (c : Char) : c.toNat < 0x110000 := by
  rcases c.valid with h | ⟨-, h⟩
  · exact Nat.lt_trans h (by decide)
  · exact h

/-- A character is spelled with as many bytes as its code point needs. -/
theorem utf8EncodeChar_eq_spell (c : Char) :
    String.utf8EncodeChar c =
      spell (firstMark (tailCount c.toNat)) (tailCount c.toNat) c.toNat := by
  have hc := toNat_lt c
  have hval : c.val.toNat = c.toNat := rfl
  -- the digits below the highest one are those of the repeated quotients
  have htwo : c.toNat / 4096 = c.toNat / 64 / 64 := by omega
  have hthree : c.toNat / 262144 = c.toNat / 64 / 64 / 64 := by omega
  unfold String.utf8EncodeChar tailCount
  simp only [hval, htwo, hthree]
  generalize c.toNat = v at hc
  by_cases h1 : v < 0x80
  · simp [h1, show v ≤ 127 by omega, spell, firstMark]
  by_cases h2 : v < 0x800
  · have hlead : v / 64 % 32 = v / 64 := by omega
    simp [h1, h2, show ¬ v ≤ 127 by omega, show v ≤ 2047 by omega, spell, firstMark, hlead,
      Nat.add_comm]
  by_cases h3 : v < 0x10000
  · have hlead : v / 64 / 64 % 16 = v / 64 / 64 := by omega
    simp [h1, h2, h3, show ¬ v ≤ 127 by omega, show ¬ v ≤ 2047 by omega, show v ≤ 65535 by omega,
      spell, firstMark, hlead, Nat.add_comm]
  · have hlead : v / 64 / 64 / 64 % 8 = v / 64 / 64 / 64 := by omega
    simp [h1, h2, h3, show ¬ v ≤ 127 by omega, show ¬ v ≤ 2047 by omega,
      show ¬ v ≤ 65535 by omega, spell, firstMark, hlead, Nat.add_comm]

theorem tailCount_le_three (v : Nat) : tailCount v ≤ 3 := by
  unfold tailCount
  grind

theorem tailCount_mono {v w : Nat} (h : v < w) : tailCount v ≤ tailCount w := by
  unfold tailCount
  grind

/-- The first byte tells how many follow. -/
theorem firstMark_add_leading_lt {v : Nat} (h : v < 0x110000) :
    firstMark (tailCount v) + leading (tailCount v) v < firstMark (tailCount v + 1) := by
  unfold tailCount
  split
  · simp only [firstMark, leading]
    omega
  split
  · simp only [firstMark, leading]
    omega
  split
  · simp only [firstMark, leading]
    omega
  · simp only [firstMark, leading]
    omega

theorem firstMark_mono {m n : Nat} (h : m ≤ n) (hn : n ≤ 4) : firstMark m ≤ firstMark n := by
  have hcases : ∀ n ≤ 4, ∀ m ≤ n, firstMark m ≤ firstMark n := by decide
  exact hcases n hn m h

/-- A lesser character has the lesser bytes, whatever follows it. -/
theorem utf8EncodeChar_append_lt {c d : Char} (h : c < d) (s t : List UInt8) :
    String.utf8EncodeChar c ++ s < String.utf8EncodeChar d ++ t := by
  have hlt : c.toNat < d.toNat := h
  have hc := firstMark_add_leading_lt (toNat_lt c)
  have hd := firstMark_add_leading_lt (toNat_lt d)
  have hmax : firstMark (tailCount d.toNat + 1) ≤ 0xF8 :=
    firstMark_mono (n := 4) (by have := tailCount_le_three d.toNat; omega) (by decide)
  rw [utf8EncodeChar_eq_spell, utf8EncodeChar_eq_spell]
  rcases Nat.lt_or_eq_of_le (tailCount_mono hlt) with hfew | hsame
  · -- the spelling with fewer bytes begins with the lesser byte
    obtain ⟨restc, hrestc⟩ :=
      spell_eq_cons (firstMark (tailCount c.toNat)) (tailCount c.toNat) c.toNat
    obtain ⟨restd, hrestd⟩ :=
      spell_eq_cons (firstMark (tailCount d.toNat)) (tailCount d.toNat) d.toNat
    have hstep : firstMark (tailCount c.toNat + 1) ≤ firstMark (tailCount d.toNat) :=
      firstMark_mono hfew (by have := tailCount_le_three d.toNat; omega)
    rw [hrestc, hrestd]
    exact List.cons_lt_cons_iff.2 (.inl (ofNat_lt_ofNat (by omega) (by omega)))
  · rw [hsame]
    exact spell_append_lt hlt (by omega) s t

theorem encode_lt_encode {a b : String} (h : a < b) : encode a < encode b := by
  have hlist : a.toList < b.toList := h
  unfold encode
  generalize a.toList = s at hlist
  generalize b.toList = t at hlist
  -- the texts are equal up to the first character that differs
  induction hlist with
  | @nil c rest =>
    obtain ⟨b, more, hspelled⟩ := List.exists_cons_of_ne_nil (String.utf8EncodeChar_ne_nil (c := c))
    rw [List.flatMap_cons, hspelled]
    exact List.nil_lt_cons b _
  | rel hlt => exact utf8EncodeChar_append_lt hlt _ _
  | cons _ ih => exact List.append_left_lt ih

theorem encode_lt_encode_iff {a b : String} : encode a < encode b ↔ a < b := by
  refine ⟨fun h => ?_, encode_lt_encode⟩
  have hle : a ≤ b := String.not_lt.1 fun hlt =>
    List.lt_irrefl _ (List.lt_trans h (encode_lt_encode hlt))
  have hne : a ≠ b := by
    rintro rfl
    exact List.lt_irrefl _ h
  exact Std.lt_of_le_of_ne hle hne

end QueryBook.Text.Utf8
