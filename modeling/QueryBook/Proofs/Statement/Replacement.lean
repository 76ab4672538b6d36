import Mathlib.Data.List.Infix
import QueryBook.Proofs.Statement.Rank
import QueryBook.Proofs.Statement.Rendering

/-!
# Rendering by replacement

A statement can also be rendered without reading its pieces: go through its parameters in the order
of their numbers, and replace every occurrence of a colon and the name in the text by the
placeholder, whatever stands around it. Longer names come first, so that when a name has its turn no
longer name that begins with it is left. Where no letter follows two colons, this gives the same text
(`replaceInTurn_ofStatement`).
-/

namespace QueryBook

namespace Text

/-- Each occurrence of the text `first :: rest` is replaced, from left to right. The first `skip`
characters belong to an occurrence that has been replaced. -/
def replaceFrom (first : Char) (rest replacement : List Char) (skip : Nat) :
    List Char → List Char
  | [] => []
  | c :: s =>
    match skip with
    | skip + 1 => replaceFrom first rest replacement skip s
    | 0 =>
      if c == first && rest.isPrefixOf s then
        replacement ++ replaceFrom first rest replacement rest.length s
      else c :: replaceFrom first rest replacement 0 s

/-- A text with each occurrence of `first :: rest` replaced. -/
def replaceAll (first : Char) (rest replacement s : List Char) : List Char :=
  replaceFrom first rest replacement 0 s

section

variable {first c : Char} {rest replacement a s : List Char}

theorem replaceFrom_eq_replaceAll_drop (skip : Nat) (s : List Char) :
    replaceFrom first rest replacement skip s =
      replaceAll first rest replacement (s.drop skip) := by
  induction s generalizing skip with
  | nil => cases skip <;> rfl
  | cons c s ih =>
    cases skip with
    | zero => rfl
    | succ skip => exact ih skip

/-- Where no occurrence begins, a character stays. -/
theorem replaceAll_cons (h : c = first → ¬ rest <+: s) :
    replaceAll first rest replacement (c :: s) = c :: replaceAll first rest replacement s := by
  have hnone : (c == first && rest.isPrefixOf s) = false := by
    rw [Bool.and_eq_false_iff, beq_eq_false_iff_ne, ← Bool.not_eq_true, List.isPrefixOf_iff_prefix]
    exact Decidable.or_iff_not_imp_left.2 fun hc => h (Decidable.not_not.1 hc)
  simp only [replaceAll, replaceFrom, hnone, Bool.false_eq_true, if_false]

/-- A text in which no occurrence can begin stays. -/
theorem replaceAll_append (h : first ∉ a) :
    replaceAll first rest replacement (a ++ s) = a ++ replaceAll first rest replacement s := by
  induction a with
  | nil => rfl
  | cons c a ih =>
    obtain ⟨hc, ha⟩ := not_or.1 (mt List.mem_cons.2 h)
    rw [List.cons_append, replaceAll_cons fun heq => absurd heq.symm hc, ih ha, List.cons_append]

/-- An occurrence at the beginning is replaced. -/
theorem replaceAll_occurrence :
    replaceAll first rest replacement (first :: rest ++ s) =
      replacement ++ replaceAll first rest replacement s := by
  have hprefix : rest.isPrefixOf (rest ++ s) = true :=
    List.isPrefixOf_iff_prefix.2 (List.prefix_append rest s)
  rw [List.cons_append, replaceAll, replaceFrom]
  simp only [beq_self_eq_true, hprefix, Bool.and_self, if_true]
  rw [replaceFrom_eq_replaceAll_drop, List.drop_left]

end

end Text

namespace Statement

open Text (replaceAll)
open Text.Decimal (digits)

/-- Names replaced one after another by placeholders, the first of them by the one with the given
number. -/
def replaceInTurn (number : Nat) : List String → List Char → List Char
  | [], s => s
  | name :: names, s =>
    replaceInTurn (number + 1) names (replaceAll ':' name.toList ('$' :: digits number) s)

/-! ## Where names end and begin -/

/-- What a parameter is called: a letter and then letters and underscores. -/
structure IsName (name : List Char) : Prop where
  letter : startsName name = true
  nameChar : ∀ c ∈ name, isNameChar c = true

theorem IsName.colon_not_mem {name : List Char} (h : IsName name) : ':' ∉ name :=
  fun hmem => absurd (h.nameChar ':' hmem) (by decide)

theorem isName_takeWhile {s : List Char} (h : startsName s = true) :
    IsName (s.takeWhile isNameChar) := by
  constructor
  · cases s with
    | nil => cases h
    | cons c s =>
      have hc : isNameChar c = true := by
        simp only [startsName] at h
        simp [isNameChar, h]
      rwa [List.takeWhile_cons_of_pos hc]
  · exact fun c hc => List.mem_takeWhile_imp hc

/-- Every parameter of a statement has a name. -/
theorem isName_of_mem_scan {s : List Char} {skip : Nat} {afterColon : Bool} {name : String}
    (h : .param name ∈ scan skip afterColon s) : IsName name.toList := by
  induction s generalizing skip afterColon with
  | nil => cases h
  | cons c s ih =>
    cases skip with
    | succ skip => exact ih h
    | zero =>
      simp only [scan] at h
      split at h
      · rename_i hparam
        simp only [Bool.and_eq_true] at hparam
        rcases List.mem_cons.1 h with heq | h
        · cases heq
          rw [String.toList_ofList]
          exact isName_takeWhile hparam.2
        · exact ih h
      · rcases List.mem_cons.1 h with heq | h
        · cases heq
        · exact ih h

/-- A name that begins a text, and is not shorter than the name that ends where this text goes on
with something else, is that name. -/
theorem eq_of_prefix_append {name other : String} {t : List Char} (hname : IsName name.toList)
    (hlen : other.length ≤ name.length) (ht : ∀ c ∈ t.head?, isNameChar c = false)
    (h : name.toList <+: other.toList ++ t) : name = other := by
  have hother : other.toList <+: name.toList :=
    List.prefix_of_prefix_length_le (List.prefix_append _ t) h
      (by rwa [String.length_toList, String.length_toList])
  obtain ⟨more, hmore⟩ := hother
  rw [← hmore, List.prefix_append_right_inj] at h
  cases more with
  | nil => exact (String.toList_injective (by simpa using hmore)).symm
  | cons c more =>
    -- the name would go on with the character at which the other one ended
    obtain ⟨after, rfl⟩ := h
    have hc : isNameChar c = true := hname.nameChar c (by simp [← hmore])
    rw [ht c rfl] at hc
    cases hc

/-- A name could be read from the first piece on into the second: a letter follows a colon, or a
name goes on. -/
def ReadsOn : Piece → Piece → Prop
  | .char c, .char d => c = ':' ∧ isLetter d = true
  | .param _, .char d => isNameChar d = true
  | _, .param _ => False

/-- No letter follows two colons at once. -/
def PlainCasts (s : List Char) : Prop :=
  ∀ c ∈ s, isLetter c = true → ¬ [':', ':', c] <:+: s

instance (s : List Char) : Decidable (PlainCasts s) :=
  List.decidableBAll (p := fun c => isLetter c = true → ¬ [':', ':', c] <:+: s) s

theorem PlainCasts.tail {c : Char} {s : List Char} (h : PlainCasts (c :: s)) : PlainCasts s :=
  fun d hd hletter hwithin =>
    h d (List.mem_cons_of_mem c hd) hletter (hwithin.trans (List.suffix_cons c s).isInfix)

theorem PlainCasts.startsName_eq {s : List Char} (h : PlainCasts (':' :: ':' :: s)) :
    startsName s = false := by
  cases s with
  | nil => rfl
  | cons c s =>
    by_contra hletter
    exact h c (by simp) (by simpa [startsName] using hletter) ⟨[], s, rfl⟩

/-- A piece that is a character is the next character of the text. -/
theorem head?_of_char_mem_head?_scan {s : List Char} {afterColon : Bool} {d : Char}
    (h : .char d ∈ (scan 0 afterColon s).head?) : s.head? = some d := by
  cases s with
  | nil => cases h
  | cons c s =>
    simp only [scan] at h
    split at h
    · cases h
    · cases h
      rfl

theorem head?_drop_takeWhile (s : List Char) :
    ∀ c ∈ (s.drop (s.takeWhile isNameChar).length).head?, isNameChar c = false := by
  induction s with
  | nil => simp
  | cons d s ih =>
    by_cases hd : isNameChar d = true
    · simpa [hd] using ih
    · simp [hd]

theorem takeWhile_length_pos {s : List Char} (h : startsName s = true) :
    0 < (s.takeWhile isNameChar).length := by
  have hletter := (isName_takeWhile h).letter
  cases hname : s.takeWhile isNameChar with
  | nil => simp [hname, startsName] at hletter
  | cons d name => simp

/-- The name of a parameter does not go on in the next piece. -/
theorem not_readsOn_param {name : String} {s : List Char} (h : startsName s = true) {q : Piece}
    (hq : q ∈ (scan (s.takeWhile isNameChar).length false s).head?) : ¬ ReadsOn (.param name) q := by
  rw [scan_eq_scan_drop s _ (takeWhile_length_pos h)] at hq
  cases q with
  | param other => exact id
  | char d =>
    have hd := head?_drop_takeWhile s d (head?_of_char_mem_head?_scan hq)
    simp [ReadsOn, hd]

/-- No letter follows a colon that begins no parameter, unless the colon is the second one. -/
theorem not_readsOn_char {c : Char} {s : List Char} {afterColon : Bool}
    (hparam : ¬ (c == ':' && !afterColon && startsName s) = true)
    (hafter : afterColon = true → c = ':' → startsName s = false) {q : Piece}
    (hq : q ∈ (scan 0 (c == ':') s).head?) : ¬ ReadsOn (.char c) q := by
  cases q with
  | param other => exact id
  | char d =>
    rintro ⟨rfl, hd⟩
    have hstarts : startsName s = true := by
      have hhead := head?_of_char_mem_head?_scan hq
      cases s with
      | nil => cases hhead
      | cons e t =>
        cases hhead
        exact hd
    have hcolon : afterColon = true := by simpa [hstarts] using hparam
    rw [hafter hcolon rfl] at hstarts
    cases hstarts

/-- No name can be read across the pieces of a statement. -/
theorem isChain_scan {s : List Char} (hs : PlainCasts s) (skip : Nat) (afterColon : Bool)
    (hafter : afterColon = true → skip = 0 → ∀ t, s = ':' :: t → startsName t = false) :
    (scan skip afterColon s).IsChain fun p q => ¬ ReadsOn p q := by
  induction s generalizing skip afterColon with
  | nil => exact .nil
  | cons c s ih =>
    cases skip with
    | succ skip => exact ih hs.tail skip false fun h => absurd h Bool.false_ne_true
    | zero =>
      simp only [scan]
      split
      · rename_i hparam
        simp only [Bool.and_eq_true] at hparam
        refine List.isChain_cons.2 ⟨fun q hq => not_readsOn_param hparam.2 hq, ?_⟩
        exact ih hs.tail _ false fun h => absurd h Bool.false_ne_true
      · rename_i hparam
        have hsecond : afterColon = true → c = ':' → startsName s = false := by
          rintro hcolon rfl
          exact hafter hcolon rfl s rfl
        refine List.isChain_cons.2 ⟨fun q hq => not_readsOn_char hparam hsecond hq, ?_⟩
        refine ih hs.tail 0 _ ?_
        rintro hc _ t rfl
        rw [beq_iff_eq] at hc
        subst hc
        exact hs.startsName_eq

/-! ## One name after another -/

variable {params done : List String}

/-- A piece when the parameters in `done` have been replaced and the others have not. -/
def Piece.partly (params done : List String) : Piece → List Char
  | .char c => [c]
  | .param name =>
    if name ∈ done then ((Piece.param name).number params).render else (Piece.param name).source

/-- Pieces when the parameters in `done` have been replaced. -/
def partlyWritten (params done : List String) (ps : List Piece) : List Char :=
  ps.flatMap (Piece.partly params done)

theorem partlyWritten_cons (p : Piece) (ps : List Piece) :
    partlyWritten params done (p :: ps) = p.partly params done ++ partlyWritten params done ps := rfl

/-- What can be replaced one name after another: pieces that have names, across which no name can
be read. -/
structure Replaceable (ps : List Piece) : Prop where
  isName : ∀ name, .param name ∈ ps → IsName name.toList
  isChain : ps.IsChain fun p q => ¬ ReadsOn p q

theorem Replaceable.tail {p : Piece} {ps : List Piece} (h : Replaceable (p :: ps)) :
    Replaceable ps where
  isName name hname := h.isName name (List.mem_cons_of_mem p hname)
  isChain := (List.isChain_cons.1 h.isChain).2

theorem replaceable_pieces {s : List Char} (hs : PlainCasts s) : Replaceable (pieces s) where
  isName _ hname := isName_of_mem_scan hname
  isChain := isChain_scan hs 0 false fun h => absurd h Bool.false_ne_true

/-- A text begins with its first piece, and the text of a parameter with a dollar sign or a colon. -/
theorem head?_partlyWritten {ps : List Piece} {c : Char}
    (h : (partlyWritten params done ps).head? = some c) :
    ps.head? = some (.char c) ∨ c = '$' ∨ c = ':' := by
  cases ps with
  | nil => cases h
  | cons p ps =>
    rw [partlyWritten_cons] at h
    cases p with
    | char d =>
      cases h
      exact .inl rfl
    | param name =>
      simp only [Piece.partly] at h
      split at h
      · cases h
        exact .inr (.inl rfl)
      · cases h
        exact .inr (.inr rfl)

/-- Behind a parameter the text goes on with something that its name could not go on with. -/
theorem isNameChar_head_partlyWritten {name : String} {ps : List Piece}
    (h : Replaceable (.param name :: ps)) :
    ∀ c ∈ (partlyWritten params done ps).head?, isNameChar c = false := by
  intro c hc
  rcases head?_partlyWritten hc with hhead | rfl | rfl
  · have hnext := (List.isChain_cons.1 h.isChain).1 _ hhead
    simpa [ReadsOn] using hnext
  · decide
  · decide

/-- Behind a colon that begins no parameter no name begins. -/
theorem not_prefix_partlyWritten {name : String} (hname : IsName name.toList) {ps : List Piece}
    (h : Replaceable (.char ':' :: ps)) : ¬ name.toList <+: partlyWritten params done ps := by
  rintro ⟨after, hafter⟩
  have hletter := hname.letter
  cases hlist : name.toList with
  | nil => simp [hlist, startsName] at hletter
  | cons l rest =>
    rw [hlist] at hafter hletter
    have hl : isLetter l = true := hletter
    have hhead : (partlyWritten params done ps).head? = some l := by rw [← hafter]; rfl
    rcases head?_partlyWritten hhead with hhead | rfl | rfl
    · exact (List.isChain_cons.1 h.isChain).1 _ hhead ⟨rfl, hl⟩
    · exact absurd hl (by decide)
    · exact absurd hl (by decide)

/-- A placeholder holds no colon. -/
theorem colon_not_mem_render (name : String) :
    ':' ∉ ((Piece.param name).number params).render :=
  not_mem_render_param (by decide) (by decide)

/-- Replacing a name leaves the occurrence of another one that is not longer. -/
theorem replaceAll_other {name other : String} {replacement : List Char} {ps : List Piece}
    (hname : IsName name.toList) (hlen : other.length ≤ name.length) (hne : other ≠ name)
    (hps : Replaceable (.param other :: ps)) :
    replaceAll ':' name.toList replacement
        ((Piece.param other).source ++ partlyWritten params done ps) =
      (Piece.param other).source ++
        replaceAll ':' name.toList replacement (partlyWritten params done ps) := by
  have hnone : ¬ name.toList <+: other.toList ++ partlyWritten params done ps :=
    fun h => hne (eq_of_prefix_append hname hlen (isNameChar_head_partlyWritten hps) h).symm
  have hcolon := (hps.isName other List.mem_cons_self).colon_not_mem
  rw [Piece.source, List.cons_append, Text.replaceAll_cons fun _ => hnone,
    Text.replaceAll_append hcolon, List.cons_append]

/-- Replacing the next name replaces just the parameters with this name. -/
theorem replaceAll_partlyWritten {before after : List String} {name : String}
    (hparams : params = before ++ name :: after) (hnew : name ∉ before)
    (hrank : ∀ other ∈ after, other.length ≤ name.length) (hname : IsName name.toList)
    {ps : List Piece} (hps : Replaceable ps) (hmem : ∀ other, .param other ∈ ps → other ∈ params) :
    replaceAll ':' name.toList ('$' :: digits (before.length + 1))
        (partlyWritten params before ps) =
      partlyWritten params (before ++ [name]) ps := by
  induction ps with
  | nil => rfl
  | cons p ps ih =>
    have hrest := ih hps.tail fun other hother => hmem other (List.mem_cons_of_mem p hother)
    cases p with
    | char c =>
      show replaceAll _ _ _ (c :: partlyWritten params before ps) =
        c :: partlyWritten params (before ++ [name]) ps
      have hnone : c = ':' → ¬ name.toList <+: partlyWritten params before ps := by
        rintro rfl
        exact not_prefix_partlyWritten hname hps
      rw [Text.replaceAll_cons hnone, hrest]
    | param other =>
      rw [partlyWritten_cons, partlyWritten_cons]
      by_cases hdone : other ∈ before
      · simp only [Piece.partly, hdone, List.mem_append, true_or, if_true]
        rw [Text.replaceAll_append (colon_not_mem_render other), hrest]
      by_cases heq : other = name
      · subst heq
        have hplace : params.idxOf other = before.length := by
          rw [hparams, List.idxOf_append_of_notMem hnew, List.idxOf_cons_self, Nat.add_zero]
        simp only [Piece.partly, hdone, List.mem_append, List.mem_singleton, or_true, if_true,
          if_false, Piece.source, Piece.number, NumberedPiece.render, hplace]
        rw [Text.replaceAll_occurrence, hrest]
      · have hother : other ∈ after := by
          have hmem := hmem other List.mem_cons_self
          simp only [hparams, List.mem_append, List.mem_cons] at hmem
          tauto
        simp only [Piece.partly, hdone, List.mem_append, List.mem_singleton, heq, or_self, if_false]
        rw [replaceAll_other hname (hrank other hother) heq hps, hrest]

/-- Replacing the names that are left replaces the parameters that are left. -/
theorem replaceInTurn_partlyWritten {before after : List String} (hparams : params = before ++ after)
    (hrank : params.Pairwise fun a b => outranks a b = true) {ps : List Piece}
    (hps : Replaceable ps) (hmem : ∀ name, name ∈ params ↔ .param name ∈ ps) :
    replaceInTurn (before.length + 1) after (partlyWritten params before ps) =
      partlyWritten params params ps := by
  induction after generalizing before with
  | nil =>
    rw [List.append_nil] at hparams
    rw [← hparams]
    rfl
  | cons name after ih =>
    have hsplit := hparams ▸ hrank
    have hafter := (List.pairwise_cons.1 (List.pairwise_append.1 hsplit).2.1).1
    have hbefore := (List.pairwise_append.1 hsplit).2.2
    have hnew : name ∉ before := by
      intro h
      have hself := hbefore name h name List.mem_cons_self
      rw [outranks_irrefl] at hself
      cases hself
    have hlen : ∀ other ∈ after, other.length ≤ name.length := by
      intro other hother
      rcases outranks_iff.1 (hafter other hother) with hlt | ⟨heq, -⟩
      · exact Nat.le_of_lt hlt
      · exact Nat.le_of_eq heq.symm
    have hname : IsName name.toList :=
      hps.isName name ((hmem name).1 (by simp [hparams]))
    rw [replaceInTurn, replaceAll_partlyWritten hparams hnew hlen hname hps fun other h =>
      (hmem other).2 h]
    have hnext : params = (before ++ [name]) ++ after := by simp [hparams]
    simpa using ih hnext

end Statement

namespace Query

open Statement (PlainCasts replaceInTurn partlyWritten)

/-- Where no letter follows two colons at once, the text of a query is the statement with one name
after another replaced by its placeholder: for k = 1, 2, and so on, each occurrence of a colon and
the k-th parameter in the text so far. -/
theorem replaceInTurn_ofStatement (name : String) (s : List Char) (hs : PlainCasts s) :
    replaceInTurn 1 (ofStatement name s).params s = (ofStatement name s).body.toList := by
  have hbody : (ofStatement name s).body.toList = Statement.render s := String.toList_ofList
  have hstart : partlyWritten (Statement.params s) [] (Statement.pieces s) = s := by
    have hsource : Statement.Piece.partly (Statement.params s) [] = Statement.Piece.source := by
      funext p
      cases p <;> simp [Statement.Piece.partly, Statement.Piece.source]
    rw [partlyWritten, hsource, Statement.source_pieces]
  have hend : partlyWritten (Statement.params s) (Statement.params s) (Statement.pieces s) =
      Statement.render s := by
    rw [Statement.render_eq_written]
    refine List.flatMap_congr fun p hp => ?_
    cases p with
    | char c => rfl
    | param other => simp [Statement.Piece.partly, Statement.mem_params.2 hp]
  have hrun : replaceInTurn (([] : List String).length + 1) (Statement.params s)
      (partlyWritten (Statement.params s) [] (Statement.pieces s)) =
        partlyWritten (Statement.params s) (Statement.params s) (Statement.pieces s) :=
    Statement.replaceInTurn_partlyWritten rfl (Statement.pairwise_rank _)
      (Statement.replaceable_pieces hs) fun _ => Statement.mem_params
  rw [hstart, hend] at hrun
  rw [hbody]
  exact hrun

/-- Three names of which each begins the next, and a cast to a type in quotation marks. -/
def chainedNames : List Char :=
  "SELECT :id, :identifier_x, :identifier::\"char\", :id".toList

theorem replaceInTurn_chainedNames :
    PlainCasts chainedNames ∧
      (ofStatement "q" chainedNames).params = ["identifier_x", "identifier", "id"] ∧
      replaceInTurn 1 ["identifier_x", "identifier", "id"] chainedNames =
        "SELECT $3, $1, $2::\"char\", $3".toList := by
  have hcasts : PlainCasts chainedNames := by decide +kernel
  have hparams : (ofStatement "q" chainedNames).params = ["identifier_x", "identifier", "id"] := by
    decide +kernel
  have hbody : (ofStatement "q" chainedNames).body.toList =
      "SELECT $3, $1, $2::\"char\", $3".toList := by
    decide +kernel
  have hreplace := replaceInTurn_ofStatement "q" chainedNames hcasts
  rw [hparams] at hreplace
  exact ⟨hcasts, hparams, hreplace.trans hbody⟩

end Query

end QueryBook
