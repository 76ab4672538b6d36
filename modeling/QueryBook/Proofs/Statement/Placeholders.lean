import QueryBook.Proofs.Arguments
import QueryBook.Proofs.Statement.Rank
import QueryBook.Proofs.Statement.Rendering

/-!
# Placeholders as a database reads them

A database that is sent a text finds its placeholders by itself: a dollar sign and as many digits as
follow it. Whatever else the text of a rendered statement holds, it finds the numbers of the
parameters just if no parameter is followed by a digit at once
(`readPlaceholders_ofStatement_iff`).
-/

namespace QueryBook

namespace Statement

open Text.Decimal (isDigit digits value)

/-- The numbers of the placeholders in a text, from left to right. -/
def readPlaceholders : List Char → List Nat
  | [] => []
  | c :: s =>
    let run := s.takeWhile isDigit
    if c == '$' && !run.isEmpty then value run :: readPlaceholders s else readPlaceholders s

/-- The numbers of the parameters in a statement, in order of appearance. -/
def numbers (s : List Char) : List Nat :=
  (names (pieces s)).map fun name => (params s).idxOf name + 1

/-- The first of two pieces is a parameter and the second a digit. -/
def RunsInto : Piece → Piece → Prop
  | .param _, .char c => isDigit c = true
  | _, _ => False

instance (p q : Piece) : Decidable (RunsInto p q) :=
  match p, q with
  | .param _, .char c => inferInstanceAs (Decidable (isDigit c = true))
  | .char _, _ => inferInstanceAs (Decidable False)
  | .param _, .param _ => inferInstanceAs (Decidable False)

/-- No parameter is followed by a digit at once. -/
def Separated (s : List Char) : Prop :=
  (pieces s).IsChain fun p q => ¬ RunsInto p q

instance (s : List Char) : Decidable (Separated s) :=
  inferInstanceAs (Decidable (List.IsChain _ _))

/-! ## Reading -/

theorem readPlaceholders_cons {c : Char} (hc : c ≠ '$') (s : List Char) :
    readPlaceholders (c :: s) = readPlaceholders s := by
  simp [readPlaceholders, hc]

theorem readPlaceholders_append {a : List Char} (ha : '$' ∉ a) (s : List Char) :
    readPlaceholders (a ++ s) = readPlaceholders s := by
  induction a with
  | nil => rfl
  | cons c a ih =>
    obtain ⟨hc, ha⟩ := not_or.1 (mt List.mem_cons.2 ha)
    rw [List.cons_append, readPlaceholders_cons (Ne.symm hc), ih ha]

/-- The digits of a number are read together with any digits after them. -/
theorem readPlaceholders_digits (n : Nat) (s : List Char) :
    readPlaceholders ('$' :: digits n ++ s) =
      value (digits n ++ s.takeWhile isDigit) :: readPlaceholders s := by
  have hrun : (digits n ++ s).takeWhile isDigit = digits n ++ s.takeWhile isDigit :=
    List.takeWhile_append_of_pos fun c hc => Text.Decimal.isDigit_of_mem_digits hc
  have hdollar : '$' ∉ digits n := fun h =>
    absurd (Text.Decimal.isDigit_of_mem_digits h) (by decide)
  have hne : (digits n ++ s.takeWhile isDigit).isEmpty = false := by
    simp [Text.Decimal.digits_ne_nil]
  rw [List.cons_append, readPlaceholders, hrun, hne, readPlaceholders_append hdollar]
  rfl

variable {params : List String}

/-- Behind a parameter a run of digits begins just if the parameter runs into the next piece. -/
theorem takeWhile_written_eq_nil_iff (name : String) (ps : List Piece) :
    (written params ps).takeWhile isDigit = [] ↔ ∀ q ∈ ps.head?, ¬ RunsInto (.param name) q := by
  cases ps with
  | nil => simp [written]
  | cons q ps =>
    cases q with
    | char c =>
      show (c :: written params ps).takeWhile isDigit = [] ↔ _
      by_cases hc : isDigit c = true
      · simp [hc, RunsInto]
      · simp [hc, RunsInto]
    | param other =>
      -- the next piece is written with a dollar sign in front
      have hdollar : isDigit '$' = false := by decide
      show ('$' :: (digits _ ++ written params ps)).takeWhile isDigit = [] ↔ _
      simp [hdollar, RunsInto]

theorem readPlaceholders_written_iff {ps : List Piece} (hdollar : .char '$' ∉ ps) :
    readPlaceholders (written params ps) =
        (names ps).map (fun name => params.idxOf name + 1) ↔
      ps.IsChain fun p q => ¬ RunsInto p q := by
  induction ps with
  | nil => simp [written, readPlaceholders, names]
  | cons p ps ih =>
    obtain ⟨hp, hps⟩ := not_or.1 (mt List.mem_cons.2 hdollar)
    have hrest := ih hps
    cases p with
    | char c =>
      have hc : c ≠ '$' := by
        rintro rfl
        exact hp rfl
      show readPlaceholders (c :: written params ps) = (names ps).map _ ↔ _
      rw [readPlaceholders_cons hc, hrest, List.isChain_cons]
      simp [RunsInto]
    | param name =>
      have hpos : 0 < params.idxOf name + 1 := Nat.succ_pos _
      show readPlaceholders ('$' :: digits (params.idxOf name + 1) ++ written params ps) =
        (params.idxOf name + 1) :: (names ps).map _ ↔ _
      rw [readPlaceholders_digits, List.cons.injEq, Text.Decimal.value_digits_append_eq_iff hpos,
        takeWhile_written_eq_nil_iff name, hrest, List.isChain_cons]

/-- The numbers that are read in a rendered statement are those of its parameters just if no
parameter is followed by a digit. -/
theorem readPlaceholders_render_iff {s : List Char} (hdollar : '$' ∉ s) :
    readPlaceholders (render s) = numbers s ↔ Separated s := by
  rw [render_eq_written]
  exact readPlaceholders_written_iff (mt char_mem_pieces hdollar)

theorem mem_numbers {s : List Char} {n : Nat} :
    n ∈ numbers s ↔ 1 ≤ n ∧ n ≤ (Statement.params s).length := by
  rw [numbers, List.mem_map, ← exists_number_iff]
  simp only [mem_names]

end Statement

namespace Query

open Statement (readPlaceholders numbers Separated)

/-- A choice has as many values as there are parameters. -/
theorem length_of_bind {q : Query} {args : Arguments} {values : List Value}
    (h : q.bind args = .ok values) : values.length = q.params.length := by
  have hvalues := Arguments.map_get?_of_select (bind_eq_ok_iff.1 h)
  simpa using (congrArg List.length hvalues).symm

/-- In the text of a query a database reads the numbers of the parameters, in the order in which
they stand in the statement, just if no parameter is followed by a digit at once. Then it expects
parameters from 1 up to the number of values that are bound. -/
theorem readPlaceholders_ofStatement_iff (name : String) (s : List Char) (hdollar : '$' ∉ s) :
    (readPlaceholders (ofStatement name s).body.toList = numbers s ↔ Separated s) ∧
      (Separated s → ∀ n, n ∈ readPlaceholders (ofStatement name s).body.toList ↔
        1 ≤ n ∧ n ≤ (ofStatement name s).params.length) ∧
      ∀ args values, (ofStatement name s).bind args = .ok values →
        values.length = (ofStatement name s).params.length := by
  have hbody : (ofStatement name s).body.toList = Statement.render s := String.toList_ofList
  have hread := Statement.readPlaceholders_render_iff hdollar
  rw [hbody]
  refine ⟨hread, ?_, fun args values hbind => length_of_bind hbind⟩
  intro hseparated n
  rw [hread.2 hseparated]
  exact Statement.mem_numbers

/-- A cast keeps the digits of a type apart from the parameter before it. -/
theorem readPlaceholders_cast :
    '$' ∉ "SELECT :x::int4 = :key".toList ∧ Separated "SELECT :x::int4 = :key".toList ∧
      readPlaceholders (ofStatement "q" "SELECT :x::int4 = :key".toList).body.toList = [2, 1] := by
  have hdollar : '$' ∉ "SELECT :x::int4 = :key".toList := by decide
  have hseparated : Separated "SELECT :x::int4 = :key".toList := by decide
  have hnumbers : numbers "SELECT :x::int4 = :key".toList = [2, 1] := by decide
  have hread := (readPlaceholders_ofStatement_iff "q" _ hdollar).1.2 hseparated
  exact ⟨hdollar, hseparated, hread.trans hnumbers⟩

/-- The first parameter and the digit after it are read as the eleventh. -/
theorem readPlaceholders_digit :
    '$' ∉ ":a1".toList ∧ (ofStatement "q" ":a1".toList).params = ["a"] ∧
      numbers ":a1".toList = [1] ∧
      readPlaceholders (ofStatement "q" ":a1".toList).body.toList = [11] := by
  decide

end Query

end QueryBook
