import QueryBook.Proofs.Text.Decoding

/-!
# Places in a text, counted in bytes

A place in a text is given by the number of bytes before it. A byte of an ASCII character stands nowhere
in the spelling of another character, so it is found among the bytes of a text just where that character
stands (`hasAt_iff`). The part between two places can be taken out just if both are boundaries between
characters and the first is not behind the second (`isSome_slice?_iff`), and then it is what stands there
(`slice?_eq_some_iff`).
-/

namespace QueryBook.Text.Utf8

variable {s t before after part : List Char} {c : Char} {p : Char → Bool} {a b : List UInt8}
  {i n start stop : Nat}

/-! ## Spellings -/

/-- The bytes that spell a text. -/
def spelling (s : List Char) : List UInt8 :=
  encode (String.ofList s)

@[simp] theorem spelling_nil : spelling [] = [] := by
  rw [spelling, encode, String.toList_ofList, List.flatMap_nil]

@[simp] theorem spelling_append (s t : List Char) :
    spelling (s ++ t) = spelling s ++ spelling t := by
  unfold spelling encode
  rw [String.toList_ofList, String.toList_ofList, String.toList_ofList, List.flatMap_append]

@[simp] theorem spelling_cons (c : Char) (s : List Char) :
    spelling (c :: s) = String.utf8EncodeChar c ++ spelling s := by
  unfold spelling encode
  rw [String.toList_ofList, String.toList_ofList, List.flatMap_cons]

theorem length_spelling_append (s t : List Char) :
    (spelling (s ++ t)).length = (spelling s).length + (spelling t).length := by
  rw [spelling_append, List.length_append]

theorem length_spelling_cons (c : Char) (s : List Char) :
    (spelling (c :: s)).length = c.utf8Size + (spelling s).length := by
  rw [spelling_cons, List.length_append, String.length_utf8EncodeChar]

/-- Different texts are spelled differently. -/
theorem spelling_inj (h : spelling s = spelling t) : s = t := by
  have hs : decode (spelling s) = .ok (String.ofList s) := decode_eq_ok_iff.2 rfl
  have ht : decode (spelling s) = .ok (String.ofList t) := decode_eq_ok_iff.2 h.symm
  rw [hs] at ht
  exact String.ofList_inj.1 (Except.ok.inj ht)

theorem length_spelling_eq_zero_iff : (spelling s).length = 0 ↔ s = [] := by
  rw [List.length_eq_zero_iff]
  refine ⟨fun h => spelling_inj (h.trans spelling_nil.symm), ?_⟩
  rintro rfl
  exact spelling_nil

/-- A text is divided in one way only after a number of bytes. -/
theorem append_inj_of_length (h : s ++ before = t ++ after)
    (hlength : (spelling s).length = (spelling t).length) : s = t ∧ before = after := by
  have hbytes : spelling s ++ spelling before = spelling t ++ spelling after := by
    rw [← spelling_append, ← spelling_append, h]
  obtain rfl := spelling_inj (List.append_inj_left hbytes hlength)
  exact ⟨rfl, List.append_cancel_left h⟩

/-! ## Bytes of ASCII characters -/

/-- The byte at an index is the number of a character in the class. -/
def HasAt (p : Char → Bool) (bytes : List UInt8) (i : Nat) : Prop :=
  ∃ b, bytes[i]? = some b ∧ p (Char.ofUInt8 b) = true

theorem HasAt.lt (h : HasAt p a i) : i < a.length := by
  obtain ⟨b, hb, -⟩ := h
  exact (List.getElem?_eq_some_iff.1 hb).1

theorem hasAt_append_left (h : i < a.length) : HasAt p (a ++ b) i ↔ HasAt p a i := by
  unfold HasAt
  rw [List.getElem?_append_left h]

theorem hasAt_append_right (i : Nat) : HasAt p (a ++ b) (a.length + i) ↔ HasAt p b i := by
  unfold HasAt
  rw [List.getElem?_append_right (Nat.le_add_right _ _), Nat.add_sub_cancel_left]

theorem HasAt.imp {q : Char → Bool} (h : HasAt p a i) (hpq : ∀ c, p c = true → q c = true) :
    HasAt q a i := by
  obtain ⟨b, hb, hp⟩ := h
  exact ⟨b, hb, hpq _ hp⟩

/-- There is a byte, and it is that of no character in the class. -/
theorem hasAt_not_iff : HasAt (fun c => !p c) a i ↔ i < a.length ∧ ¬ HasAt p a i := by
  constructor
  · intro h
    refine ⟨h.lt, ?_⟩
    rintro ⟨b, hb, hp⟩
    obtain ⟨b', hb', hnot⟩ := h
    obtain rfl : b = b' := Option.some.inj (hb.symm.trans hb')
    simp [hp] at hnot
  · rintro ⟨hi, hnot⟩
    have hb : a[i]? = some a[i] := List.getElem?_eq_getElem hi
    refine ⟨a[i], hb, ?_⟩
    rw [Bool.not_eq_true']
    exact Bool.eq_false_iff.2 fun hp => hnot ⟨a[i], hb, hp⟩

/-- All characters of a class are ASCII. -/
def IsAscii (p : Char → Bool) : Prop :=
  ∀ c, p c = true → c.toNat < 0x80

theorem toNat_ofUInt8 (b : UInt8) : (Char.ofUInt8 b).toNat = b.toNat :=
  UInt8.toNat_toUInt32 b

/-- An ASCII character is spelled with the byte of its number. -/
theorem utf8EncodeChar_of_lt (h : c.toNat < 0x80) :
    ∃ b, String.utf8EncodeChar c = [b] ∧ Char.ofUInt8 b = c := by
  have hsize : c.utf8Size = 1 :=
    Char.utf8Size_eq_one_iff.2 (UInt32.le_iff_toNat_le.2 (Nat.le_of_lt_succ h))
  obtain ⟨b, hb⟩ : ∃ b, String.utf8EncodeChar c = [b] := ⟨_, String.utf8EncodeChar_eq_singleton hsize⟩
  obtain ⟨hlt, hc⟩ := utf8EncodeChar_eq_one_iff.1 hb
  refine ⟨b, hb, Char.toNat_inj.1 ?_⟩
  rw [toNat_ofUInt8, (eq_ofNat_iff (.inl (by omega))).1 hc]

/-- All bytes of another character are above those of ASCII. -/
theorem le_of_mem_utf8EncodeChar (h : 0x80 ≤ c.toNat) {x : UInt8}
    (hx : x ∈ String.utf8EncodeChar c) : 0x80 ≤ x.toNat := by
  rcases exists_utf8EncodeChar_eq c with ⟨a, hc⟩ | ⟨a, b, hc⟩ | ⟨a, b, d, hc⟩ | ⟨a, b, d, e, hc⟩
  · obtain ⟨ha, heq⟩ := utf8EncodeChar_eq_one_iff.1 hc
    have hnat := (eq_ofNat_iff (.inl (by omega))).1 heq
    omega
  · obtain ⟨ha, hb, -⟩ := utf8EncodeChar_eq_two_iff.1 hc
    have hb := isTail_iff.1 hb
    simp only [hc, List.mem_cons, List.not_mem_nil, or_false] at hx
    rcases hx with rfl | rfl <;> omega
  · obtain ⟨ha, hb, hd, -⟩ := utf8EncodeChar_eq_three_iff.1 hc
    have hb := (isSecond_iff.1 hb).1
    have hd := isTail_iff.1 hd
    simp only [hc, List.mem_cons, List.not_mem_nil, or_false] at hx
    rcases hx with rfl | rfl | rfl <;> omega
  · obtain ⟨ha, hb, hd, he, -⟩ := utf8EncodeChar_eq_four_iff.1 hc
    have hb := (isSecond_iff.1 hb).1
    have hd := isTail_iff.1 hd
    have he := isTail_iff.1 he
    simp only [hc, List.mem_cons, List.not_mem_nil, or_false] at hx
    rcases hx with rfl | rfl | rfl | rfl <;> omega

theorem hasAt_char_iff (hp : IsAscii p) :
    HasAt p (String.utf8EncodeChar c) i ↔ i = 0 ∧ p c = true := by
  unfold HasAt
  by_cases hc : c.toNat < 0x80
  · obtain ⟨b, hb, rfl⟩ := utf8EncodeChar_of_lt hc
    rw [hb]
    cases i with
    | zero => simp
    | succ i => simp
  · refine iff_of_false ?_ fun h => hc (hp c h.2)
    rintro ⟨b, hb, hclass⟩
    have hlt := hp _ hclass
    rw [toNat_ofUInt8] at hlt
    have hle := le_of_mem_utf8EncodeChar (Nat.le_of_not_lt hc) (List.mem_of_getElem? hb)
    omega

/-- The bytes of ASCII characters stand where the characters stand. -/
theorem hasAt_iff (hp : IsAscii p) :
    HasAt p (spelling s) i ↔
      ∃ before c after, s = before ++ c :: after ∧ (spelling before).length = i ∧ p c = true := by
  induction s generalizing i with
  | nil =>
    refine iff_of_false (fun h => absurd h.lt (by simp)) ?_
    rintro ⟨before, c, after, h, -⟩
    exact List.append_ne_nil_of_right_ne_nil before (List.cons_ne_nil c after) h.symm
  | cons d s ih =>
    rw [spelling_cons]
    by_cases hi : i < (String.utf8EncodeChar d).length
    · -- the byte is one of the first character
      rw [hasAt_append_left hi, hasAt_char_iff hp]
      constructor
      · rintro ⟨rfl, hd⟩
        exact ⟨[], d, s, rfl, by simp, hd⟩
      · rintro ⟨before, c, after, h, rfl, hc⟩
        cases before with
        | nil =>
          cases h
          exact ⟨by simp, hc⟩
        | cons first before =>
          cases h
          rw [length_spelling_cons, ← String.length_utf8EncodeChar] at hi
          omega
    · obtain ⟨i, rfl⟩ := Nat.exists_eq_add_of_le (Nat.le_of_not_lt hi)
      rw [hasAt_append_right, ih]
      constructor
      · rintro ⟨before, c, after, rfl, rfl, hc⟩
        exact ⟨d :: before, c, after, rfl, by simp, hc⟩
      · rintro ⟨before, c, after, h, hlength, hc⟩
        cases before with
        | nil =>
          have hpos := Char.utf8Size_pos d
          rw [← String.length_utf8EncodeChar] at hpos
          rw [spelling_nil, List.length_nil] at hlength
          omega
        | cons first before =>
          cases h
          rw [length_spelling_cons, ← String.length_utf8EncodeChar] at hlength
          exact ⟨before, c, after, rfl, by omega, hc⟩

/-- The first byte. -/
theorem hasAt_zero_iff (hp : IsAscii p) :
    HasAt p (spelling s) 0 ↔ ∃ c rest, s = c :: rest ∧ p c = true := by
  rw [hasAt_iff hp]
  constructor
  · rintro ⟨before, c, after, rfl, hlength, hc⟩
    obtain rfl := length_spelling_eq_zero_iff.1 hlength
    exact ⟨c, after, rfl, hc⟩
  · rintro ⟨c, rest, rfl, hc⟩
    exact ⟨[], c, rest, rfl, by simp, hc⟩

/-- A text of ASCII characters has a byte for each of them. -/
theorem hasAt_of_forall (hp : IsAscii p) (h : ∀ c ∈ s, p c = true) (hi : i < (spelling s).length) :
    HasAt p (spelling s) i := by
  induction s generalizing i with
  | nil => simp at hi
  | cons d s ih =>
    obtain ⟨hd, hs⟩ := List.forall_mem_cons.1 h
    obtain ⟨x, hx, -⟩ := utf8EncodeChar_of_lt (hp d hd)
    have hlength : (String.utf8EncodeChar d).length = 1 := by rw [hx, List.length_singleton]
    rw [spelling_cons] at hi ⊢
    cases i with
    | zero => exact (hasAt_append_left (by omega)).2 ((hasAt_char_iff hp).2 ⟨rfl, hd⟩)
    | succ i =>
      rw [List.length_append] at hi
      have hrest := (hasAt_append_right (a := String.utf8EncodeChar d) i).2 (ih hs (by omega))
      rwa [hlength, Nat.add_comm 1 i] at hrest

/-- As many bytes of ASCII characters as stand at the beginning of a text are those of its first
characters. -/
theorem exists_append_of_hasAt (hp : IsAscii p) (h : ∀ i < n, HasAt p (spelling s) i) :
    ∃ part rest, s = part ++ rest ∧ (∀ c ∈ part, p c = true) ∧ (spelling part).length = n := by
  induction n generalizing s with
  | zero => exact ⟨[], s, rfl, by simp, by simp⟩
  | succ n ih =>
    obtain ⟨c, s, rfl, hc⟩ := (hasAt_zero_iff hp).1 (h 0 (Nat.succ_pos n))
    obtain ⟨x, hx, -⟩ := utf8EncodeChar_of_lt (hp c hc)
    have hlength : (String.utf8EncodeChar c).length = 1 := by rw [hx, List.length_singleton]
    have hrest : ∀ i < n, HasAt p (spelling s) i := by
      intro i hi
      have hnext := h (i + 1) (Nat.succ_lt_succ hi)
      rw [spelling_cons, Nat.add_comm, ← hlength] at hnext
      exact (hasAt_append_right i).1 hnext
    obtain ⟨part, rest, rfl, hpart, rfl⟩ := ih hrest
    refine ⟨c :: part, rest, rfl, List.forall_mem_cons.2 ⟨hc, hpart⟩, ?_⟩
    rw [length_spelling_cons, ← String.length_utf8EncodeChar, hlength, Nat.add_comm]

/-! ## Boundaries and parts -/

/-- A character, or the end of the text, begins after so many bytes. -/
def IsBoundary (s : List Char) (i : Nat) : Prop :=
  ∃ before after, s = before ++ after ∧ (spelling before).length = i

theorem IsBoundary.le_length (h : IsBoundary s i) : i ≤ (spelling s).length := by
  obtain ⟨before, after, rfl, rfl⟩ := h
  rw [length_spelling_append]
  exact Nat.le_add_right _ _

/-- A text divided after so many bytes, if a character does not stand across. -/
def divide? : Nat → List Char → Option (List Char × List Char)
  | 0, s => some ([], s)
  | _ + 1, [] => none
  | n + 1, c :: s =>
    if c.utf8Size ≤ n + 1 then
      (divide? (n + 1 - c.utf8Size) s).map fun (before, after) => (c :: before, after)
    else none

theorem divide?_eq_some_iff :
    divide? n s = some (before, after) ↔ s = before ++ after ∧ (spelling before).length = n := by
  fun_induction divide? n s generalizing before with
  | case1 s =>
    rw [length_spelling_eq_zero_iff, Option.some.injEq, Prod.mk.injEq]
    constructor
    · rintro ⟨rfl, rfl⟩
      exact ⟨rfl, rfl⟩
    · rintro ⟨rfl, rfl⟩
      exact ⟨rfl, rfl⟩
  | case2 n =>
    refine iff_of_false (by simp) ?_
    rintro ⟨h, hlength⟩
    obtain ⟨rfl, -⟩ := List.append_eq_nil_iff.1 h.symm
    simp at hlength
  | case3 n c s hsize ih =>
    rw [Option.map_eq_some_iff]
    constructor
    · rintro ⟨⟨first, rest⟩, hrest, heq⟩
      cases heq
      obtain ⟨rfl, hlength⟩ := ih.1 hrest
      refine ⟨rfl, ?_⟩
      rw [length_spelling_cons]
      omega
    · rintro ⟨h, hlength⟩
      cases before with
      | nil => simp at hlength
      | cons d before =>
        cases h
        rw [length_spelling_cons] at hlength
        exact ⟨(before, after), ih.2 ⟨rfl, by omega⟩, rfl⟩
  | case4 n c s hsize =>
    refine iff_of_false (by simp) ?_
    rintro ⟨h, hlength⟩
    cases before with
    | nil => simp at hlength
    | cons d before =>
      cases h
      rw [length_spelling_cons] at hlength
      omega

/-- The part of a text from one number of bytes to another. There is none where the end comes before
the start, or where one of them is no boundary. -/
def slice? (s : List Char) (start stop : Nat) : Option (List Char) :=
  if start ≤ stop then
    (divide? start s).bind fun (_, rest) => (divide? (stop - start) rest).map Prod.fst
  else none

theorem slice?_eq_some_iff :
    slice? s start stop = some part ↔
      ∃ before after, s = before ++ (part ++ after) ∧ (spelling before).length = start ∧
        start + (spelling part).length = stop := by
  unfold slice?
  split
  · rename_i hle
    simp only [Option.bind_eq_some_iff, Option.map_eq_some_iff, Prod.exists, divide?_eq_some_iff]
    constructor
    · rintro ⟨before, rest, ⟨rfl, hstart⟩, first, after, ⟨rfl, hlength⟩, rfl⟩
      exact ⟨before, after, rfl, hstart, by omega⟩
    · rintro ⟨before, after, rfl, hstart, hstop⟩
      exact ⟨before, part ++ after, ⟨rfl, hstart⟩, part, after, ⟨rfl, by omega⟩, rfl⟩
  · rename_i hlt
    refine iff_of_false (by simp) ?_
    rintro ⟨before, after, -, -, hstop⟩
    omega

/-- A part can be taken out just between two boundaries, the first of them first. -/
theorem isSome_slice?_iff :
    (slice? s start stop).isSome = true ↔ start ≤ stop ∧ IsBoundary s start ∧ IsBoundary s stop := by
  rw [Option.isSome_iff_exists]
  constructor
  · rintro ⟨part, h⟩
    obtain ⟨before, after, rfl, rfl, rfl⟩ := slice?_eq_some_iff.1 h
    refine ⟨Nat.le_add_right _ _, ⟨before, part ++ after, rfl, rfl⟩, before ++ part, after, by simp, ?_⟩
    rw [length_spelling_append]
  · rintro ⟨hle, ⟨before, rest, rfl, rfl⟩, upto, after, h, rfl⟩
    rcases List.append_eq_append_iff.1 h with ⟨part, rfl, rfl⟩ | ⟨part, rfl, rfl⟩
    · refine ⟨part, slice?_eq_some_iff.2 ⟨before, after, rfl, rfl, ?_⟩⟩
      rw [length_spelling_append]
    · -- the end is not before the start, so that nothing stands between them
      rw [length_spelling_append] at hle
      obtain rfl := length_spelling_eq_zero_iff.1 (show (spelling part).length = 0 by omega)
      exact ⟨[], slice?_eq_some_iff.2 ⟨upto, rest, by simp, by simp, by simp⟩⟩

example : slice? "né".toList 1 3 = some ['é'] ∧ slice? "né".toList 1 2 = none := by decide

end QueryBook.Text.Utf8
