import QueryBook.Proofs.Text.Utf8

/-!
# Reading UTF-8

Bytes are read just if they spell a text, and what is read is the text that they spell
(`decode_eq_ok_iff`). Each character is read from its own spelling: one to four bytes, of which the
first tells how many follow (`decodeFrom_append`). No replacement character is put into the bytes of a
text (`decodeLossy_encode`).
-/

namespace QueryBook.Text.Utf8

variable {c : Char} {a b d e : UInt8} {n : Nat}

/-! ## Bytes and code points as numbers -/

theorem ofNat_eq_iff (h : n < 256) : UInt8.ofNat n = a ↔ n = a.toNat := by
  rw [← UInt8.toNat_inj, UInt8.toNat_ofNat', Nat.mod_eq_of_lt h]

theorem isTail_iff : isTail b = true ↔ 0x80 ≤ b.toNat ∧ b.toNat ≤ 0xBF := by
  rw [isTail, Bool.and_eq_true, decide_eq_true_eq, decide_eq_true_eq, UInt8.le_iff_toNat_le,
    UInt8.le_iff_toNat_le]
  rfl

/-- The second byte of a spelling continues a character and, after some first bytes, more is asked
of it. -/
theorem isSecond_iff : isSecond a b = true ↔
    (0x80 ≤ b.toNat ∧ b.toNat ≤ 0xBF) ∧ (a.toNat = 0xE0 → 0xA0 ≤ b.toNat) ∧
      (a.toNat = 0xED → b.toNat ≤ 0x9F) ∧ (a.toNat = 0xF0 → 0x90 ≤ b.toNat) ∧
      (a.toNat = 0xF4 → b.toNat ≤ 0x8F) := by
  simp only [isSecond, isTail, beq_iff_eq, ← UInt8.toNat_inj, UInt8.le_iff_toNat_le,
    UInt8.reduceToNat]
  split
  · simp
    omega
  split
  · simp
    omega
  split
  · simp
    omega
  split
  · simp
    omega
  · simp
    omega

/-- The numbers that are code points. -/
theorem not_surrogate (c : Char) : c.toNat < 0xD800 ∨ 0xDFFF < c.toNat := by
  rcases c.valid with h | ⟨h, -⟩
  · exact .inl h
  · exact .inr h

theorem eq_ofNat_iff (h : n.isValidChar) : c = Char.ofNat n ↔ c.toNat = n := by
  constructor
  · rintro rfl
    rw [Char.ofNat, dif_pos h]
    rfl
  · rintro rfl
    exact (Char.ofNat_toNat c).symm

/-! ## Spellings -/

theorem length_spell (mark count v : Nat) : (spell mark count v).length = count + 1 := by
  induction count generalizing v with
  | zero => rfl
  | succ count ih => rw [spell, List.length_append, ih, List.length_singleton]

/-- The spellings with so many bytes behind the first one. -/
theorem utf8EncodeChar_eq_iff_spell (count : Nat) {bytes : List UInt8}
    (hlength : bytes.length = count + 1) :
    String.utf8EncodeChar c = bytes ↔
      tailCount c.toNat = count ∧ spell (firstMark count) count c.toNat = bytes := by
  rw [utf8EncodeChar_eq_spell]
  constructor
  · intro h
    have hcount : tailCount c.toNat = count := by
      have hsame := congrArg List.length h
      rw [length_spell] at hsame
      omega
    rw [hcount] at h
    exact ⟨hcount, h⟩
  · rintro ⟨hcount, h⟩
    rwa [hcount]

theorem tailCount_eq_zero_iff : tailCount n = 0 ↔ n < 0x80 := by
  grind [tailCount]

theorem tailCount_eq_one_iff : tailCount n = 1 ↔ 0x80 ≤ n ∧ n < 0x800 := by
  grind [tailCount]

theorem tailCount_eq_two_iff : tailCount n = 2 ↔ 0x800 ≤ n ∧ n < 0x10000 := by
  grind [tailCount]

theorem tailCount_eq_three_iff : tailCount n = 3 ↔ 0x10000 ≤ n := by
  grind [tailCount]

theorem utf8EncodeChar_eq_one_iff :
    String.utf8EncodeChar c = [a] ↔ a.toNat < 0x80 ∧ c = Char.ofNat a.toNat := by
  rw [utf8EncodeChar_eq_iff_spell 0 rfl, tailCount_eq_zero_iff]
  constructor
  · rintro ⟨hc, h⟩
    have ha : c.toNat = a.toNat := by
      simpa [spell, firstMark, ofNat_eq_iff (show c.toNat < 256 by omega)] using h
    exact ⟨by omega, by rw [← ha, Char.ofNat_toNat]⟩
  · rintro ⟨ha, h⟩
    have hc : c.toNat = a.toNat := (eq_ofNat_iff (.inl (by omega))).1 h
    refine ⟨by omega, ?_⟩
    simp [spell, firstMark, hc]

theorem utf8EncodeChar_eq_two_iff :
    String.utf8EncodeChar c = [a, b] ↔
      (0xC2 ≤ a.toNat ∧ a.toNat ≤ 0xDF) ∧ isTail b = true ∧ c = ofBits (a.toNat - 0xC0) [b] := by
  rw [utf8EncodeChar_eq_iff_spell 1 rfl, tailCount_eq_one_iff, isTail_iff]
  show _ ↔ _ ∧ _ ∧ c = Char.ofNat ((a.toNat - 0xC0) * 0x40 + (b.toNat - 0x80))
  constructor
  · rintro ⟨hc, h⟩
    simp only [spell, firstMark, List.singleton_append, List.cons.injEq, and_true] at h
    rw [ofNat_eq_iff (by omega), ofNat_eq_iff (by omega)] at h
    refine ⟨by omega, by omega, (eq_ofNat_iff (.inl (by omega))).2 (by omega)⟩
  · rintro ⟨ha, hb, h⟩
    have hc := (eq_ofNat_iff (.inl (by omega))).1 h
    refine ⟨by omega, ?_⟩
    simp only [spell, firstMark, List.singleton_append, List.cons.injEq, and_true]
    rw [ofNat_eq_iff (by omega), ofNat_eq_iff (by omega)]
    omega

theorem utf8EncodeChar_eq_three_iff :
    String.utf8EncodeChar c = [a, b, d] ↔
      (0xE0 ≤ a.toNat ∧ a.toNat ≤ 0xEF) ∧ isSecond a b = true ∧ isTail d = true ∧
        c = ofBits (a.toNat - 0xE0) [b, d] := by
  have hsurrogate := not_surrogate c
  rw [utf8EncodeChar_eq_iff_spell 2 rfl, tailCount_eq_two_iff, isSecond_iff, isTail_iff]
  show _ ↔ _ ∧ _ ∧ _ ∧
    c = Char.ofNat (((a.toNat - 0xE0) * 0x40 + (b.toNat - 0x80)) * 0x40 + (d.toNat - 0x80))
  constructor
  · rintro ⟨hc, h⟩
    simp only [spell, firstMark, List.cons_append, List.nil_append, List.cons.injEq,
      and_true] at h
    rw [ofNat_eq_iff (by omega), ofNat_eq_iff (by omega), ofNat_eq_iff (by omega)] at h
    refine ⟨by omega, by omega, by omega, (eq_ofNat_iff ?_).2 (by omega)⟩
    unfold Nat.isValidChar
    omega
  · rintro ⟨ha, hb, hd, h⟩
    have hc := (eq_ofNat_iff (by unfold Nat.isValidChar; omega)).1 h
    refine ⟨by omega, ?_⟩
    simp only [spell, firstMark, List.cons_append, List.nil_append, List.cons.injEq, and_true]
    rw [ofNat_eq_iff (by omega), ofNat_eq_iff (by omega), ofNat_eq_iff (by omega)]
    omega

theorem utf8EncodeChar_eq_four_iff :
    String.utf8EncodeChar c = [a, b, d, e] ↔
      (0xF0 ≤ a.toNat ∧ a.toNat ≤ 0xF4) ∧ isSecond a b = true ∧ isTail d = true ∧
        isTail e = true ∧ c = ofBits (a.toNat - 0xF0) [b, d, e] := by
  have hlt := toNat_lt c
  rw [utf8EncodeChar_eq_iff_spell 3 rfl, tailCount_eq_three_iff, isSecond_iff, isTail_iff,
    isTail_iff]
  show _ ↔ _ ∧ _ ∧ _ ∧ _ ∧
    c = Char.ofNat ((((a.toNat - 0xF0) * 0x40 + (b.toNat - 0x80)) * 0x40 + (d.toNat - 0x80)) * 0x40 +
      (e.toNat - 0x80))
  constructor
  · rintro ⟨hc, h⟩
    simp only [spell, firstMark, List.cons_append, List.nil_append, List.cons.injEq,
      and_true] at h
    rw [ofNat_eq_iff (by omega), ofNat_eq_iff (by omega), ofNat_eq_iff (by omega),
      ofNat_eq_iff (by omega)] at h
    refine ⟨by omega, by omega, by omega, by omega, (eq_ofNat_iff (.inr ?_)).2 (by omega)⟩
    omega
  · rintro ⟨ha, hb, hd, he, h⟩
    have hc := (eq_ofNat_iff (.inr (by omega))).1 h
    refine ⟨by omega, ?_⟩
    simp only [spell, firstMark, List.cons_append, List.nil_append, List.cons.injEq, and_true]
    rw [ofNat_eq_iff (by omega), ofNat_eq_iff (by omega), ofNat_eq_iff (by omega),
      ofNat_eq_iff (by omega)]
    omega

/-- A character is spelled with one byte to four bytes. -/
theorem exists_utf8EncodeChar_eq (c : Char) :
    (∃ a, String.utf8EncodeChar c = [a]) ∨ (∃ a b, String.utf8EncodeChar c = [a, b]) ∨
      (∃ a b d, String.utf8EncodeChar c = [a, b, d]) ∨
      ∃ a b d e, String.utf8EncodeChar c = [a, b, d, e] := by
  have hmax := tailCount_le_three c.toNat
  rw [utf8EncodeChar_eq_spell]
  generalize tailCount c.toNat = count at hmax
  match count, hmax with
  | 0, _ => exact .inl ⟨_, rfl⟩
  | 1, _ => exact .inr (.inl ⟨_, _, rfl⟩)
  | 2, _ => exact .inr (.inr (.inl ⟨_, _, _, rfl⟩))
  | 3, _ => exact .inr (.inr (.inr ⟨_, _, _, _, rfl⟩))

/-! ## Reading -/

/-- A character is read from its spelling, whatever follows it. -/
theorem decodeFrom_append (start : Nat) (c : Char) (rest : List UInt8) :
    decodeFrom start (String.utf8EncodeChar c ++ rest) =
      (c :: ·) <$> decodeFrom (start + (String.utf8EncodeChar c).length) rest := by
  rcases exists_utf8EncodeChar_eq c with ⟨a, h⟩ | ⟨a, b, h⟩ | ⟨a, b, d, h⟩ | ⟨a, b, d, e, h⟩
  · obtain ⟨ha, hc⟩ := utf8EncodeChar_eq_one_iff.1 h
    rw [h, List.cons_append, decodeFrom.eq_def]
    simp only [UInt8.lt_iff_toNat_lt, UInt8.reduceToNat]
    rw [if_pos ha, ← hc]
    rfl
  · obtain ⟨ha, hb, hc⟩ := utf8EncodeChar_eq_two_iff.1 h
    rw [h, List.cons_append, decodeFrom.eq_def]
    simp only [UInt8.lt_iff_toNat_lt, UInt8.le_iff_toNat_le, UInt8.reduceToNat, Bool.and_eq_true,
      decide_eq_true_eq]
    rw [if_neg (by omega), if_pos ha]
    simp only [List.cons_append, List.nil_append, hb, Bool.not_true, Bool.false_eq_true, if_false,
      ← hc]
    rfl
  · obtain ⟨ha, hb, hd, hc⟩ := utf8EncodeChar_eq_three_iff.1 h
    rw [h, List.cons_append, decodeFrom.eq_def]
    simp only [UInt8.lt_iff_toNat_lt, UInt8.le_iff_toNat_le, UInt8.reduceToNat, Bool.and_eq_true,
      decide_eq_true_eq]
    rw [if_neg (by omega), if_neg (by omega), if_pos ha]
    simp only [List.cons_append, List.nil_append, hb, hd, Bool.not_true, Bool.false_eq_true,
      if_false, ← hc]
    rfl
  · obtain ⟨ha, hb, hd, he, hc⟩ := utf8EncodeChar_eq_four_iff.1 h
    rw [h, List.cons_append, decodeFrom.eq_def]
    simp only [UInt8.lt_iff_toNat_lt, UInt8.le_iff_toNat_le, UInt8.reduceToNat, Bool.and_eq_true,
      decide_eq_true_eq]
    rw [if_neg (by omega), if_neg (by omega), if_neg (by omega), if_pos ha]
    simp only [List.cons_append, List.nil_append, hb, hd, he, Bool.not_true, Bool.false_eq_true,
      if_false, ← hc]
    rfl

theorem decodeFrom_flatMap (start : Nat) (s : List Char) :
    decodeFrom start (s.flatMap String.utf8EncodeChar) = .ok s := by
  induction s generalizing start with
  | nil => rfl
  | cons c s ih =>
    rw [List.flatMap_cons, decodeFrom_append, ih]
    rfl

/-- A character that has been read stands in front of all that follows it. -/
theorem eq_flatMap_of_map_cons {result : Except Fault (List Char)} {spelling rest : List UInt8}
    {s : List Char} (hspelling : String.utf8EncodeChar c = spelling)
    (hrest : ∀ {s}, result = .ok s → rest = s.flatMap String.utf8EncodeChar)
    (h : (c :: ·) <$> result = .ok s) : spelling ++ rest = s.flatMap String.utf8EncodeChar := by
  cases result with
  | error e => cases h
  | ok more =>
    cases h
    rw [List.flatMap_cons, hspelling, hrest rfl]

/-- Bytes that are read spell what is read. -/
theorem eq_flatMap_of_decodeFrom {start : Nat} {bytes : List UInt8} {s : List Char}
    (h : decodeFrom start bytes = .ok s) : bytes = s.flatMap String.utf8EncodeChar := by
  fun_induction decodeFrom start bytes generalizing s with
  | case1 =>
    cases h
    rfl
  | case2 start a rest ha ih =>
    have hspelling := utf8EncodeChar_eq_one_iff.2 ⟨UInt8.lt_iff_toNat_lt.1 ha, rfl⟩
    exact eq_flatMap_of_map_cons hspelling ih h
  | case5 start a _ ha b rest hb ih =>
    simp only [Bool.and_eq_true, decide_eq_true_eq, UInt8.le_iff_toNat_le] at ha
    simp only [Bool.not_eq_true, Bool.not_eq_false'] at hb
    exact eq_flatMap_of_map_cons (utf8EncodeChar_eq_two_iff.2 ⟨ha, hb, rfl⟩) ih h
  | case10 start a _ _ ha b hb d rest hd ih =>
    simp only [Bool.and_eq_true, decide_eq_true_eq, UInt8.le_iff_toNat_le] at ha
    simp only [Bool.not_eq_true, Bool.not_eq_false'] at hb hd
    exact eq_flatMap_of_map_cons (utf8EncodeChar_eq_three_iff.2 ⟨ha, hb, hd, rfl⟩) ih h
  | case17 start a _ _ _ ha b hb d hd e rest he ih =>
    simp only [Bool.and_eq_true, decide_eq_true_eq, UInt8.le_iff_toNat_le] at ha
    simp only [Bool.not_eq_true, Bool.not_eq_false'] at hb hd he
    exact eq_flatMap_of_map_cons (utf8EncodeChar_eq_four_iff.2 ⟨ha, hb, hd, he, rfl⟩) ih h
  | _ => cases h

/-- Reading accepts what writing produces and nothing else. -/
theorem decode_eq_ok_iff {bytes : List UInt8} {s : String} :
    decode bytes = .ok s ↔ encode s = bytes := by
  unfold decode encode
  constructor
  · intro h
    cases hread : decodeFrom 0 bytes with
    | error fault =>
      rw [hread] at h
      cases h
    | ok chars =>
      rw [hread] at h
      cases h
      rw [String.toList_ofList, eq_flatMap_of_decodeFrom hread]
  · rintro rfl
    rw [decodeFrom_flatMap]
    exact congrArg Except.ok String.ofList_toList

/-! ## Replacing -/

theorem lossyFrom_eq_drop (skipped : Nat) (bytes : List UInt8) :
    lossyFrom skipped bytes = lossyFrom 0 (bytes.drop skipped) := by
  induction bytes generalizing skipped with
  | nil => cases skipped <;> rfl
  | cons first rest ih =>
    cases skipped with
    | zero => rfl
    | succ skipped => exact ih skipped

/-- The first byte of a character tells how many it has. -/
theorem length_eq_width {first : UInt8} {tail : List UInt8}
    (h : String.utf8EncodeChar c = first :: tail) : (first :: tail).length = width first := by
  unfold width
  simp only [UInt8.lt_iff_toNat_lt, UInt8.reduceToNat]
  rcases exists_utf8EncodeChar_eq c with ⟨a, hc⟩ | ⟨a, b, hc⟩ | ⟨a, b, d, hc⟩ | ⟨a, b, d, e, hc⟩
  · obtain ⟨ha, -⟩ := utf8EncodeChar_eq_one_iff.1 hc
    cases h.symm.trans hc
    rw [if_pos (by omega)]
    rfl
  · obtain ⟨ha, -⟩ := utf8EncodeChar_eq_two_iff.1 hc
    cases h.symm.trans hc
    rw [if_neg (by omega), if_pos (by omega)]
    rfl
  · obtain ⟨ha, -⟩ := utf8EncodeChar_eq_three_iff.1 hc
    cases h.symm.trans hc
    rw [if_neg (by omega), if_neg (by omega), if_pos (by omega)]
    rfl
  · obtain ⟨ha, -⟩ := utf8EncodeChar_eq_four_iff.1 hc
    cases h.symm.trans hc
    rw [if_neg (by omega), if_neg (by omega), if_neg (by omega)]
    rfl

/-- A character is left as it is, whatever follows it. -/
theorem lossyFrom_append (c : Char) (rest : List UInt8) :
    lossyFrom 0 (String.utf8EncodeChar c ++ rest) = c :: lossyFrom 0 rest := by
  obtain ⟨first, tail, hc⟩ := List.exists_cons_of_ne_nil (String.utf8EncodeChar_ne_nil (c := c))
  have hwidth := length_eq_width hc
  have htake : (first :: (tail ++ rest)).take (width first) = String.utf8EncodeChar c := by
    rw [← hwidth, hc, ← List.cons_append, List.take_left]
  have hread : decodeFrom 0 (String.utf8EncodeChar c) = .ok [c] := by
    rw [← List.flatMap_singleton String.utf8EncodeChar c, decodeFrom_flatMap]
  have hdrop : (tail ++ rest).drop (width first - 1) = rest := by
    rw [← hwidth, List.length_cons, Nat.add_sub_cancel, List.drop_left]
  rw [hc, List.cons_append, lossyFrom, htake, hread]
  show [c] ++ lossyFrom (width first - 1) (tail ++ rest) = _
  rw [lossyFrom_eq_drop, hdrop, List.singleton_append]

/-- Nothing is replaced in the bytes of a text. -/
theorem decodeLossy_encode (s : String) : decodeLossy (encode s) = s := by
  have hchars : ∀ chars : List Char, lossyFrom 0 (chars.flatMap String.utf8EncodeChar) = chars := by
    intro chars
    induction chars with
    | nil => rfl
    | cons c chars ih => rw [List.flatMap_cons, lossyFrom_append, ih]
  unfold decodeLossy encode
  rw [hchars, String.ofList_toList]

end QueryBook.Text.Utf8
