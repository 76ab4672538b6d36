import QueryBook.Proofs.Database.VersionTable

/-!
# Times on the wire

A time is passed as the whole microseconds between it and the start of 2000, and read back as the
time so far from there. Of every time that a date can be given for, this is exact to the microsecond
(`time_exact`).
-/

namespace QueryBook

namespace Instant

variable {t u : Instant}

/-! ## Nanoseconds since 2000 -/

theorem eq_of_nanosSince2000_eq (h : t.nanosSince2000 = u.nanosSince2000) : t = u := by
  obtain ⟨s, m, hm⟩ := t
  obtain ⟨r, n, hn⟩ := u
  simp only [nanosSince2000] at h
  obtain rfl : s = r := by omega
  obtain rfl : m = n := by omega
  rfl

/-- A date can be given for the times of an interval. -/
theorem inRange_iff : t.inRange = true ↔
    (firstSecond - epoch2000) * 1000000000 ≤ t.nanosSince2000 ∧
      t.nanosSince2000 < (lastSecond + 1 - epoch2000) * 1000000000 := by
  have hnanos := t.nanos_lt
  rw [inRange, Bool.and_eq_true, decide_eq_true_eq, decide_eq_true_eq]
  simp only [nanosSince2000, firstSecond, lastSecond, epoch2000]
  omega

theorem nanosSince2000_ofMicros (n : Int) : (ofMicros n).nanosSince2000 = n * 1000 := by
  have hdiv := Int.fdiv_mul_add_fmod n 1000000
  have hlo := Int.fmod_nonneg_of_pos n (show (0 : Int) < 1000000 by decide)
  simp only [ofMicros, nanosSince2000, epoch2000]
  omega

/-! ## Microseconds -/

/-- What is left of a microsecond is left out: a step back after 2000 and a step forward before it. -/
theorem micros_toward2000 (t : Instant) :
    0 ≤ t.micros ∧ t.micros * 1000 ≤ t.nanosSince2000 ∧
        t.nanosSince2000 < t.micros * 1000 + 1000 ∨
      t.micros ≤ 0 ∧ t.micros * 1000 - 1000 < t.nanosSince2000 ∧
        t.nanosSince2000 ≤ t.micros * 1000 := by
  rcases Int.le_total 0 t.nanosSince2000 with ht | ht
  · have hpos : t.micros = t.nanosSince2000 / 1000 := Int.tdiv_eq_ediv_of_nonneg ht
    omega
  · have hneg : t.micros = -(-t.nanosSince2000 / 1000) := by
      rw [micros, ← Int.tdiv_eq_ediv_of_nonneg (by omega), Int.neg_tdiv, Int.neg_neg]
    omega

theorem micros_mono (h : t.nanosSince2000 ≤ u.nanosSince2000) : t.micros ≤ u.micros := by
  have ht := t.micros_toward2000
  have hu := u.micros_toward2000
  omega

theorem micros_ofMicros (n : Int) : (ofMicros n).micros = n := by
  rw [micros, nanosSince2000_ofMicros, Int.mul_tdiv_cancel n (by decide)]

/-- The microseconds of a time that a date can be given for are a number of 64 bits. -/
theorem micros_bounds (h : t.inRange = true) :
    -Wire.halfRange 7 ≤ t.micros ∧ t.micros < Wire.halfRange 7 := by
  rw [show Wire.halfRange 7 = 9223372036854775808 from rfl]
  obtain ⟨hfirst, hlast⟩ := inRange_iff.1 h
  simp only [firstSecond, lastSecond, epoch2000] at hfirst hlast
  have ht := t.micros_toward2000
  omega

/-! ## There and back -/

/-- What is read for a time lies between it and 2000, so that a date can be given for it as well. -/
theorem inRange_ofMicros_micros (h : t.inRange = true) : (ofMicros t.micros).inRange = true := by
  rw [inRange_iff, nanosSince2000_ofMicros]
  obtain ⟨hfirst, hlast⟩ := inRange_iff.1 h
  simp only [firstSecond, lastSecond, epoch2000] at hfirst hlast ⊢
  have ht := t.micros_toward2000
  omega

theorem nanosSince2000_ofMicros_micros (t : Instant) :
    (t.nanosSince2000 - (ofMicros t.micros).nanosSince2000).natAbs < 1000 := by
  rw [nanosSince2000_ofMicros]
  have ht := t.micros_toward2000
  omega

/-- Nothing is left out of a time of whole microseconds. -/
theorem ofMicros_micros (h : t.nanos % 1000 = 0) : ofMicros t.micros = t := by
  have hwhole : t.nanosSince2000 % 1000 = 0 := by
    simp only [nanosSince2000, epoch2000]
    omega
  apply eq_of_nanosSince2000_eq
  rw [nanosSince2000_ofMicros]
  have ht := t.micros_toward2000
  omega

theorem ofMicros?_micros (h : t.inRange = true) :
    ofMicros? t.micros = some (ofMicros t.micros) := by
  rw [ofMicros?, if_pos (inRange_ofMicros_micros h)]

theorem ofMicros?_eq_some {n : Int} (h : ofMicros? n = some t) :
    t.inRange = true ∧ t.micros = n := by
  unfold ofMicros? at h
  by_cases hrange : (ofMicros n).inRange = true
  · rw [if_pos hrange] at h
    obtain rfl := Option.some.inj h
    exact ⟨hrange, micros_ofMicros n⟩
  · rw [if_neg hrange] at h
    cases h

/-- The microseconds of a time as a number of 64 bits. -/
theorem exists_int64_micros (h : t.inRange = true) : ∃ micros : Int64, micros.toInt = t.micros := by
  obtain ⟨hlo, hhi⟩ := micros_bounds h
  exact ⟨Int64.ofInt t.micros, Int64.toInt_ofInt_of_le hlo hhi⟩

end Instant

/-! ## Times as parameters and in rows -/

namespace Value

theorem writeChecked_time (t : Instant) {type : PgType} (h : type ∈ [.timestamp, .timestamptz])
    (buffer : List UInt8) :
    (time t).writeChecked type buffer = append buffer (Wire.intBytes 8 t.micros) := by
  have hconverts : (time t).converts type = true := by
    simp only [List.mem_cons, List.not_mem_nil, or_false] at h
    rcases h with rfl | rfl <;> rfl
  rw [writeChecked, if_pos hconverts]
  rfl

/-- A time that a date can be given for is passed in 8 bytes, the same for both types of times; they
spell the microseconds since 2000, cut off towards 2000, which a number of 64 bits can hold. In the row
of the version table they are read as a time less than a microsecond away, and as the very time if that
has whole microseconds. Later times have greater numbers. And a time that was read from a number of 64
bits is passed as this number. -/
theorem time_exact {t : Instant} (ht : t.inRange = true) (buffer : List UInt8) :
    (∃ (micros : Int64) (bytes : List UInt8),
      micros.toInt = t.nanosSince2000.tdiv 1000 ∧
      bytes.length = 8 ∧ Wire.readInt bytes = micros.toInt ∧
      (∀ type ∈ [.timestamp, .timestamptz],
        (time t).writeChecked type buffer = ⟨.ok false, buffer ++ bytes⟩) ∧
      (∃ u : Instant, (∀ version, VersionRow.reader
          ⟨StoredVersion.columns, [VersionQuery.cell version, some bytes]⟩ = .ok ⟨version, u⟩) ∧
        (t.nanosSince2000 - u.nanosSince2000).natAbs < 1000 ∧ (t.nanos % 1000 = 0 → u = t)) ∧
      ∀ (u : Instant) (more : List UInt8), u.inRange = true →
        t.nanosSince2000 ≤ u.nanosSince2000 →
        (time u).writeChecked .timestamptz buffer = ⟨.ok false, buffer ++ more⟩ →
        Wire.readInt bytes ≤ Wire.readInt more) ∧
    ∀ (n : Int64) (u : Instant),
      CellReader.instant.read .timestamptz (some (Wire.intBytes 8 n.toInt)) = .ok u →
      u.inRange = true ∧ ∀ type ∈ [.timestamp, .timestamptz],
        (time u).writeChecked type buffer = ⟨.ok false, buffer ++ Wire.intBytes 8 n.toInt⟩ := by
  constructor
  · obtain ⟨micros, hmicros⟩ := Instant.exists_int64_micros ht
    have hread : Wire.readInt (Wire.intBytes 8 micros.toInt) = micros.toInt :=
      Wire.readInt_intBytes 7 micros.le_toInt micros.toInt_lt
    refine ⟨micros, Wire.intBytes 8 micros.toInt, hmicros, Wire.length_intBytes 8 _, hread, ?_,
      ⟨.ofMicros t.micros, ?_, t.nanosSince2000_ofMicros_micros, Instant.ofMicros_micros⟩, ?_⟩
    · intro type htype
      rw [writeChecked_time t htype, hmicros]
      rfl
    · intro version
      have hcreated : Instant.ofMicros? micros.toInt = some (.ofMicros t.micros) := by
        rw [hmicros, Instant.ofMicros?_micros ht]
      have hreads : StoredVersion.Reads ⟨version, micros⟩ ⟨version, .ofMicros t.micros⟩ :=
        ⟨rfl, hcreated⟩
      have hrow : StoredVersion.row ⟨version, micros⟩ = ⟨StoredVersion.columns,
          [VersionQuery.cell version, some (Wire.intBytes 8 micros.toInt)]⟩ := rfl
      rw [← hrow]
      exact StoredVersion.reader_eq_ok.2 hreads
    · intro u more hu hle hmore
      obtain ⟨later, hlater⟩ := Instant.exists_int64_micros hu
      rw [writeChecked_time u (by simp), ← hlater] at hmore
      rw [← List.append_cancel_left (congrArg Writing.buffer hmore), hread,
        Wire.readInt_intBytes 7 later.le_toInt later.toInt_lt, hmicros, hlater]
      exact Instant.micros_mono hle
  · intro n u hu
    obtain ⟨hrange, hn⟩ := Instant.ofMicros?_eq_some (CellReader.instant_read_eq_ok.1 hu)
    refine ⟨hrange, ?_⟩
    intro type htype
    rw [writeChecked_time u htype, hn]
    rfl

/-- A nanosecond before 1970 is passed as the start of 1970, which is a step towards 2000. -/
theorem time_exact_before1970 :
    let t : Instant := ⟨-1, 999999999, by decide⟩
    t.inRange = true ∧ t.nanosSince2000.tdiv 1000 = -946684800000000 ∧
      ∃ bytes : List UInt8, bytes.length = 8 ∧ Wire.readInt bytes = -946684800000000 ∧
        (time t).writeChecked .timestamp [1, 2] = ⟨.ok false, [1, 2] ++ bytes⟩ ∧
        (time t).writeChecked .timestamptz [1, 2] = ⟨.ok false, [1, 2] ++ bytes⟩ ∧
        ∃ u : Instant, VersionRow.reader
            ⟨StoredVersion.columns, [VersionQuery.cell 3, some bytes]⟩ = .ok ⟨3, u⟩ ∧
          (t.nanosSince2000 - u.nanosSince2000).natAbs < 1000 := by
  intro t
  have ht : t.inRange = true := by decide
  have hmicros : t.nanosSince2000.tdiv 1000 = -946684800000000 := by decide
  obtain ⟨⟨micros, bytes, hvalue, hlength, hread, hwrite, ⟨u, hrow, hnear, -⟩, -⟩, -⟩ :=
    time_exact ht [1, 2]
  refine ⟨ht, hmicros, bytes, hlength, ?_, hwrite _ (by simp), hwrite _ (by simp), u, hrow 3, hnear⟩
  rw [hread, hvalue, hmicros]

end Value

end QueryBook
