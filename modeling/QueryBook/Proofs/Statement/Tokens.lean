import QueryBook.Proofs.Statement.Numbering
import QueryBook.Proofs.Text.Boundary

/-!
# Where the parameters stand

A parameter stands in the bytes of a statement just where a colon that follows no colon is followed by
a letter, and it goes on up to the first byte that is neither a letter nor an underscore
(`mem_tokens_iff`). Between the pieces that are read and these bytes stands the place of the parameter
among the characters (`Occurs`): parameters are read at such places and nowhere else (`occurs_of_scan`,
`exists_scan_eq`), and the bytes of such places are told from those around them (`Occurs.isToken`,
`IsToken.exists_occurs`).
-/

namespace QueryBook.Statement

open Text.Utf8

variable {s before name after : List Char} {params : List String} {ps : List Piece}
  {start stop : Nat}

/-! ## Ranges of bytes -/

/-- The number of bytes that a piece takes in the statement. -/
def Piece.width (p : Piece) : Nat :=
  (spelling p.source).length

/-- The ranges of bytes of the parameters among pieces of which the first begins at `first`. -/
def tokensFrom (first : Nat) : List Piece → List (Nat × Nat)
  | [] => []
  | .char c :: ps => tokensFrom (first + (Piece.char c).width) ps
  | .param name :: ps =>
    (first, first + (Piece.param name).width) :: tokensFrom (first + (Piece.param name).width) ps

/-- The ranges of bytes in which the parameters of a statement stand. -/
def tokens (s : List Char) : List (Nat × Nat) :=
  tokensFrom 0 (pieces s)

/-- The bytes from `start` on and before `stop` are a colon that does not follow a colon, a letter, and
then letters and underscores up to the first byte that is neither. -/
structure IsToken (bytes : List UInt8) (start stop : Nat) : Prop where
  nonempty : start < stop
  colon : HasAt (· == ':') bytes start
  letter : HasAt isLetter bytes (start + 1)
  noColonBefore : start = 0 ∨ ¬ HasAt (· == ':') bytes (start - 1)
  name : ∀ i, start + 2 ≤ i → i < stop → HasAt isNameChar bytes i
  ends : stop = bytes.length ∨ HasAt (fun c => !isNameChar c) bytes stop

theorem mem_tokensFrom_cons {first : Nat} {p : Piece} :
    (start, stop) ∈ tokensFrom first (p :: ps) ↔
      (∃ name, p = .param name ∧ first = start ∧ start + p.width = stop) ∨
        (start, stop) ∈ tokensFrom (first + p.width) ps := by
  cases p with
  | char c => simp [tokensFrom]
  | param name =>
    rw [tokensFrom, List.mem_cons, Prod.mk.injEq]
    refine or_congr_left ⟨?_, ?_⟩
    · rintro ⟨rfl, rfl⟩
      exact ⟨name, rfl, rfl, rfl⟩
    · rintro ⟨-, -, rfl, rfl⟩
      exact ⟨rfl, rfl⟩

/-- A parameter begins behind all pieces before it. -/
theorem mem_tokensFrom {first : Nat} :
    (start, stop) ∈ tokensFrom first ps ↔
      ∃ before name after, ps = before ++ .param name :: after ∧
        first + (spelling (before.flatMap Piece.source)).length = start ∧
        start + (Piece.param name).width = stop := by
  induction ps generalizing first with
  | nil => simp [tokensFrom]
  | cons p ps ih =>
    have hwidth : ∀ before : List Piece,
        first + (spelling ((p :: before).flatMap Piece.source)).length =
          first + p.width + (spelling (before.flatMap Piece.source)).length := by
      intro before
      rw [List.flatMap_cons, length_spelling_append, Nat.add_assoc]
      rfl
    rw [mem_tokensFrom_cons, ih]
    constructor
    · rintro (⟨name, rfl, rfl, rfl⟩ | ⟨before, name, after, rfl, rfl, rfl⟩)
      · exact ⟨[], name, ps, rfl, by simp, rfl⟩
      · exact ⟨p :: before, name, after, rfl, hwidth before, rfl⟩
    · rintro ⟨before, name, after, h, rfl, rfl⟩
      cases before with
      | nil =>
        cases h
        exact .inl ⟨name, rfl, by simp, rfl⟩
      | cons q before =>
        cases h
        exact .inr ⟨before, name, after, rfl, (hwidth before).symm, rfl⟩

/-- No two of the ranges overlap. -/
theorem pairwise_tokensFrom (first : Nat) (ps : List Piece) :
    (tokensFrom first ps).Pairwise fun t u => t.2 ≤ u.1 := by
  induction ps generalizing first with
  | nil => exact .nil
  | cons p ps ih =>
    cases p with
    | char c => exact ih _
    | param name =>
      refine List.pairwise_cons.2 ⟨?_, ih _⟩
      rintro ⟨start, stop⟩ h
      obtain ⟨before, -, -, -, rfl, -⟩ := mem_tokensFrom.1 h
      exact Nat.le_add_right _ _

/-! ## Occurrences in the characters -/

/-- Whether a colon comes last in a text, or came last before it if it is empty. -/
def lastIsColon (afterColon : Bool) (s : List Char) : Bool :=
  s.foldl (fun _ c => c == ':') afterColon

theorem lastIsColon_cons (afterColon : Bool) (c : Char) (s : List Char) :
    lastIsColon afterColon (c :: s) = lastIsColon (c == ':') s := rfl

theorem lastIsColon_append (h : ':' ∉ name) (afterColon : Bool) (s : List Char) :
    lastIsColon afterColon (name ++ s) = lastIsColon (afterColon && name.isEmpty) s := by
  induction name generalizing afterColon with
  | nil => simp
  | cons c name ih =>
    obtain ⟨hc, hname⟩ := not_or.1 (mt List.mem_cons.2 h)
    have hbeq : (c == ':') = false := beq_eq_false_iff_ne.2 (Ne.symm hc)
    rw [List.cons_append, lastIsColon_cons, ih hname, hbeq, Bool.false_and, List.isEmpty_cons,
      Bool.and_false]

theorem lastIsColon_eq_true_iff :
    lastIsColon false s = true ↔ ∃ before, s = before ++ [':'] := by
  rcases List.eq_nil_or_concat s with rfl | ⟨front, c, rfl⟩
  · simp [lastIsColon]
  · rw [List.concat_eq_append, lastIsColon, List.foldl_append]
    constructor
    · intro h
      exact ⟨front, by rw [beq_iff_eq.1 h]⟩
    · rintro ⟨before, h⟩
      obtain ⟨-, h⟩ := List.append_inj' h rfl
      cases h
      rfl

theorem IsName.isEmpty (h : IsName name) : name.isEmpty = false := by
  have hletter := h.letter
  cases name with
  | nil => cases hletter
  | cons c name => rfl

/-- Behind a name it does not matter whether a colon came before it. -/
theorem IsName.lastIsColon_append (h : IsName name) (afterColon : Bool) (s : List Char) :
    lastIsColon afterColon (name ++ s) = lastIsColon false s := by
  rw [Statement.lastIsColon_append h.colon_not_mem, h.isEmpty, Bool.and_false]

/-- Between these texts a colon and the name are a parameter. -/
structure Occurs (before name after : List Char) : Prop where
  isName : IsName name
  noColonBefore : lastIsColon false before = false
  ends : ∀ c ∈ after.head?, isNameChar c = false

/-- What stands around a parameter that has been read. -/
theorem occurs_of_scan {skip : Nat} {afterColon : Bool} {ps qs : List Piece} {name : String}
    (h : scan skip afterColon s = ps ++ .param name :: qs) :
    lastIsColon (afterColon && skip == 0) (ps.flatMap Piece.source) = false ∧
      ∀ c ∈ (qs.flatMap Piece.source).head?, isNameChar c = false := by
  induction s generalizing skip afterColon ps with
  | nil => simp [scan] at h
  | cons c s ih =>
    cases skip with
    | succ skip =>
      obtain ⟨hlast, hends⟩ := @ih skip false ps h
      exact ⟨by simpa using hlast, hends⟩
    | zero =>
      simp only [scan] at h
      split at h
      · rename_i hparam
        simp only [Bool.and_eq_true] at hparam
        have hrun := isName_takeWhile hparam.2
        cases ps with
        | nil =>
          -- this is the parameter, and its name has just been read to the end
          cases h
          rw [source_scan]
          exact ⟨by simpa [lastIsColon] using hparam.1.2, head?_drop_takeWhile s⟩
        | cons p ps =>
          obtain ⟨hp, hrest⟩ := List.cons.inj h
          obtain ⟨hlast, hends⟩ := ih hrest
          subst hp
          refine ⟨?_, hends⟩
          rw [List.flatMap_cons, Piece.source, String.toList_ofList, List.cons_append,
            lastIsColon_cons, hrun.lastIsColon_append]
          simpa using hlast
      · cases ps with
        | nil => cases h
        | cons p ps =>
          obtain ⟨hp, hrest⟩ := List.cons.inj h
          obtain ⟨hlast, hends⟩ := ih hrest
          subst hp
          refine ⟨?_, hends⟩
          rw [List.flatMap_cons, Piece.source, List.singleton_append, lastIsColon_cons]
          simpa using hlast

/-- A name ends at a colon. -/
theorem takeWhile_append_colon (s t : List Char) :
    (s ++ ':' :: t).takeWhile isNameChar = s.takeWhile isNameChar := by
  have hcolon : (':' :: t).takeWhile isNameChar = [] := rfl
  rw [List.takeWhile_append, hcolon, List.append_nil]
  split
  · rename_i hall
    exact ((List.takeWhile_prefix isNameChar).eq_of_length hall).symm
  · rfl

/-- A name is read up to where it ends. -/
theorem takeWhile_name (hname : IsName name) (hends : ∀ c ∈ after.head?, isNameChar c = false) :
    (name ++ after).takeWhile isNameChar = name := by
  rw [List.takeWhile_append_of_pos hname.nameChar]
  cases after with
  | nil => simp
  | cons c after => simp [hends c rfl]

theorem startsName_append (hname : IsName name) (s : List Char) :
    startsName (name ++ s) = true := by
  have hletter := hname.letter
  cases name with
  | nil => cases hletter
  | cons c name => exact hletter

/-- What goes on with no character of a name does not begin with a letter. -/
theorem startsName_of_append (h : startsName (name ++ after) = true)
    (hends : ∀ c ∈ after.head?, isNameChar c = false) : startsName name = true := by
  cases name with
  | cons c name => exact h
  | nil =>
    cases after with
    | nil => exact h
    | cons c after =>
      have hletter : isLetter c = true := h
      have hc := hends c rfl
      rw [isNameChar, hletter] at hc
      cases hc

/-- A parameter is read where one stands, unless it has been skipped. What has been skipped or read
before does not reach into it, because names end at a colon. -/
theorem exists_scan_eq (hname : IsName name) (hends : ∀ c ∈ after.head?, isNameChar c = false)
    {skip : Nat} {afterColon : Bool} (hskip : skip ≤ before.length)
    (hnone : lastIsColon (afterColon && skip == 0) (before.drop skip) = false) :
    ∃ ps qs, scan skip afterColon (before ++ ':' :: (name ++ after)) =
        ps ++ .param (String.ofList name) :: qs ∧
      ps.flatMap Piece.source = before.drop skip := by
  induction before generalizing skip afterColon with
  | nil =>
    obtain rfl : skip = 0 := Nat.le_zero.1 hskip
    obtain rfl : afterColon = false := by simpa [lastIsColon] using hnone
    refine ⟨[], scan name.length false (name ++ after), ?_, rfl⟩
    simp [scan, startsName_append hname, takeWhile_name hname hends]
  | cons c before ih =>
    cases skip with
    | succ skip => exact @ih skip false (Nat.le_of_succ_le_succ hskip) (by simpa using hnone)
    | zero =>
      rw [List.drop_zero, lastIsColon_cons] at hnone
      simp only [scan, List.cons_append]
      split
      · rename_i hparam
        simp only [Bool.and_eq_true, beq_iff_eq] at hparam
        obtain ⟨⟨rfl, -⟩, hstarts⟩ := hparam
        have hrun := isName_takeWhile hstarts
        rw [takeWhile_append_colon] at hrun ⊢
        -- the text before is the name that is read here and what follows it
        have hbegins : before.takeWhile isNameChar <+: before := List.takeWhile_prefix isNameChar
        have hbefore := List.prefix_iff_eq_append.1 hbegins
        rw [← hbefore, hrun.lastIsColon_append] at hnone
        obtain ⟨ps, qs, hscan, hsource⟩ := @ih _ false hbegins.length_le hnone
        refine ⟨_ :: ps, qs, congrArg _ hscan, ?_⟩
        rw [List.flatMap_cons, hsource, Piece.source, String.toList_ofList, List.cons_append, hbefore]
        rfl
      · obtain ⟨ps, qs, hscan, hsource⟩ := @ih 0 (c == ':') (Nat.zero_le _)
          (by simpa using hnone)
        refine ⟨_ :: ps, qs, congrArg _ hscan, ?_⟩
        rw [List.flatMap_cons, hsource]
        rfl

/-! ## Occurrences in the bytes -/

theorem isAscii_isNameChar : IsAscii isNameChar := by
  intro c hc
  have hle := Char.utf8Size_eq_one_iff.1 (utf8Size_eq_one hc)
  exact Nat.lt_succ_of_le (UInt32.le_iff_toNat_le.1 hle)

theorem isAscii_isLetter : IsAscii isLetter := by
  intro c hc
  exact isAscii_isNameChar c (by simp [isNameChar, hc])

theorem isAscii_colon : IsAscii (· == ':') := by
  intro c hc
  rw [beq_iff_eq.1 hc]
  decide

theorem length_spelling_colon (name : List Char) :
    (spelling (':' :: name)).length = 1 + (spelling name).length := by
  have hcolon : Char.utf8Size ':' = 1 := rfl
  rw [length_spelling_cons, hcolon]

theorem length_spelling_concat_colon (before : List Char) :
    (spelling (before ++ [':'])).length = (spelling before).length + 1 := by
  rw [length_spelling_append, length_spelling_colon, spelling_nil, List.length_nil]

/-- The bytes behind a colon. -/
theorem hasAt_behind_colon {p : Char → Bool} (before s : List Char) (i : Nat) :
    HasAt p (spelling (before ++ ':' :: s)) ((spelling before).length + 1 + i) ↔
      HasAt p (spelling s) i := by
  have hsplit : before ++ ':' :: s = (before ++ [':']) ++ s := by simp
  rw [hsplit, spelling_append, ← length_spelling_concat_colon, hasAt_append_right]

/-- The byte before a place is a colon just if the text before it ends in a colon. -/
theorem hasAt_before_iff (before s : List Char) :
    (spelling before).length = 0 ∨
        ¬ HasAt (· == ':') (spelling (before ++ s)) ((spelling before).length - 1) ↔
      lastIsColon false before = false := by
  rw [← Bool.not_eq_true, lastIsColon_eq_true_iff]
  constructor
  · rintro h ⟨front, rfl⟩
    rw [length_spelling_concat_colon] at h
    rcases h with h | h
    · omega
    · exact h ((hasAt_iff isAscii_colon).2 ⟨front, ':', s, by simp, rfl, rfl⟩)
  · intro hnone
    rcases Nat.eq_zero_or_pos (spelling before).length with hzero | hpos
    · exact .inl hzero
    refine .inr fun h => hnone ?_
    obtain ⟨front, c, after, hsplit, hlength, hc⟩ := (hasAt_iff isAscii_colon).1 h
    rw [beq_iff_eq] at hc
    subst hc
    rw [← List.singleton_append, ← List.append_assoc] at hsplit
    refine ⟨front, (append_inj_of_length hsplit ?_).1⟩
    rw [length_spelling_concat_colon]
    omega

/-- Behind a name the text goes on with no character that could go on with it, just if it ends there or
the next byte is that of no such character. -/
theorem hasAt_after_iff (before s : List Char) :
    (spelling before).length = (spelling (before ++ s)).length ∨
        HasAt (fun c => !isNameChar c) (spelling (before ++ s)) (spelling before).length ↔
      ∀ c ∈ s.head?, isNameChar c = false := by
  have hplace := hasAt_append_right (p := isNameChar) (a := spelling before)
    (b := spelling s) 0
  rw [Nat.add_zero, hasAt_zero_iff isAscii_isNameChar] at hplace
  rw [hasAt_not_iff, spelling_append, hplace, List.length_append]
  cases s with
  | nil => simp
  | cons c s =>
    have hpos : (spelling (c :: s)).length ≠ 0 :=
      mt length_spelling_eq_zero_iff.1 (List.cons_ne_nil c s)
    have hfirst : (∃ d rest, c :: s = d :: rest ∧ isNameChar d = true) ↔ isNameChar c = true := by
      simp
    rw [hfirst, Bool.not_eq_true]
    constructor
    · rintro (h | ⟨-, hc⟩) d hd
      · omega
      · cases hd
        exact hc
    · intro h
      exact .inr ⟨by omega, h c rfl⟩

/-- A text begins with a letter just if its first byte is that of one. -/
theorem startsName_iff (s : List Char) : startsName s = true ↔ HasAt isLetter (spelling s) 0 := by
  rw [hasAt_zero_iff isAscii_isLetter]
  cases s with
  | nil => simp [startsName]
  | cons c s => simp [startsName]

/-- Where a parameter stands among the characters, its bytes are a token. -/
theorem Occurs.isToken (h : Occurs before name after) :
    IsToken (spelling (before ++ ':' :: (name ++ after))) (spelling before).length
      ((spelling before).length + (spelling (':' :: name)).length) where
  nonempty := by
    rw [length_spelling_colon]
    omega
  colon := (hasAt_iff isAscii_colon).2 ⟨before, ':', name ++ after, rfl, rfl, rfl⟩
  letter := by
    have hletter := (startsName_iff _).1 (startsName_append h.isName after)
    exact (hasAt_behind_colon before (name ++ after) 0).2 hletter
  noColonBefore := (hasAt_before_iff before _).2 h.noColonBefore
  name := by
    intro i hstart hstop
    obtain ⟨k, rfl⟩ := Nat.exists_eq_add_of_le (Nat.le_of_succ_le hstart)
    rw [length_spelling_colon] at hstop
    have hk : k < (spelling name).length := by omega
    rw [hasAt_behind_colon, spelling_append, hasAt_append_left hk]
    exact hasAt_of_forall isAscii_isNameChar h.isName.nameChar hk
  ends := by
    have hafter := (hasAt_after_iff (before ++ ':' :: name) after).2 h.ends
    rwa [length_spelling_append, List.append_assoc] at hafter

/-- The bytes of a token are those of a parameter that stands among the characters. -/
theorem IsToken.exists_occurs (h : IsToken (spelling s) start stop) :
    ∃ before name after, s = before ++ ':' :: (name ++ after) ∧ Occurs before name after ∧
      (spelling before).length = start ∧ start + (spelling (':' :: name)).length = stop := by
  obtain ⟨before, c, rest, rfl, rfl, hc⟩ := (hasAt_iff isAscii_colon).1 h.colon
  rw [beq_iff_eq] at hc
  subst hc
  obtain ⟨n, rfl⟩ := Nat.exists_eq_add_of_le (show _ + 1 ≤ stop from h.nonempty)
  have hletter : HasAt isLetter (spelling rest) 0 := (hasAt_behind_colon before rest 0).1 h.letter
  -- the name is what stands in the bytes between the colon and the end
  have hrun : ∀ i < n, HasAt isNameChar (spelling rest) i := by
    intro i hi
    cases i with
    | zero => exact hletter.imp fun c hc => by simp [isNameChar, hc]
    | succ i =>
      have hname := h.name ((spelling before).length + 1 + (i + 1)) (by omega) (by omega)
      exact (hasAt_behind_colon before rest (i + 1)).1 hname
  obtain ⟨name, after, rfl, hchars, rfl⟩ := exists_append_of_hasAt isAscii_isNameChar hrun
  have hends : ∀ c ∈ after.head?, isNameChar c = false := by
    refine (hasAt_after_iff (before ++ ':' :: name) after).1 ?_
    rw [length_spelling_append before, List.append_assoc, length_spelling_colon, ← Nat.add_assoc]
    exact h.ends
  have hstarts : startsName name = true :=
    startsName_of_append ((startsName_iff _).2 hletter) hends
  refine ⟨before, name, after, rfl, ⟨⟨hstarts, hchars⟩, ?_, hends⟩, rfl, ?_⟩
  · exact (hasAt_before_iff before _).1 h.noColonBefore
  · rw [length_spelling_colon, Nat.add_assoc]

/-- The ranges of the parameters are those of the tokens in the bytes of the statement. -/
theorem mem_tokens_iff : (start, stop) ∈ tokens s ↔ IsToken (spelling s) start stop := by
  rw [tokens, mem_tokensFrom]
  constructor
  · rintro ⟨ps, name, qs, h, rfl, rfl⟩
    have hs : s = ps.flatMap Piece.source ++ ':' :: (name.toList ++ qs.flatMap Piece.source) := by
      rw [← source_pieces s, h, List.flatMap_append, List.flatMap_cons]
      rfl
    obtain ⟨hlast, hends⟩ := occurs_of_scan h
    have hname : IsName name.toList :=
      isName_of_mem_scan (h ▸ List.mem_append_right ps List.mem_cons_self)
    have htoken := (Occurs.mk hname hlast hends).isToken
    rwa [← hs, ← Nat.zero_add (spelling (ps.flatMap Piece.source)).length] at htoken
  · intro h
    obtain ⟨before, name, after, rfl, hoccurs, rfl, rfl⟩ := h.exists_occurs
    have hlast : lastIsColon (false && 0 == 0) (before.drop 0) = false := hoccurs.noColonBefore
    obtain ⟨ps, qs, hscan, hsource⟩ :=
      exists_scan_eq hoccurs.isName hoccurs.ends (Nat.zero_le before.length) hlast
    refine ⟨ps, String.ofList name, qs, hscan, ?_, ?_⟩
    · rw [hsource, List.drop_zero, Nat.zero_add]
    · rw [Piece.width, Piece.source, String.toList_ofList]

end QueryBook.Statement
