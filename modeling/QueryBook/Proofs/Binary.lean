import Mathlib.Order.Monotone.Basic
import Mathlib.Tactic.Ring
import QueryBook.Binary

/-!
# Numbers of one binary format as numbers of the other

Without its sign a number is told by its bits alone, and greater bits are the greater magnitude. A
number of 64 bits has too large a magnitude for 32 bits just if it is finite and greater than all
finite numbers of 32 bits (`exceeds32_iff`); any other stays what it is, finite, infinite or no number
at all, with its sign (`keeps_narrow`). A number of 32 bits comes back from 64 bits (`narrow_widen`).
-/

namespace QueryBook

/-! ## Magnitudes -/

/-- What the bits of a magnitude are worth, as a multiple of the least magnitude above zero. The
exponent begins at the bit `unit`; below it is the fraction. -/
def worth (unit magnitude : Nat) : Nat :=
  if magnitude / unit = 0 then magnitude % unit
  else (unit + magnitude % unit) * 2 ^ (magnitude / unit - 1)

/-- The next magnitude is one last bit of the significand away, also across exponents. -/
theorem worth_succ {unit : Nat} (hunit : 0 < unit) (m : Nat) :
    worth unit (m + 1) = worth unit m + 2 ^ (m / unit - 1) := by
  have hfraction := Nat.mod_lt m hunit
  have hm := Nat.div_add_mod m unit
  unfold worth
  generalize m / unit = e at hm
  generalize m % unit = f at hm hfraction
  subst hm
  by_cases hcarry : f + 1 < unit
  · have hdiv : (unit * e + f + 1) / unit = e := by
      rw [Nat.add_assoc, Nat.mul_add_div hunit, Nat.div_eq_of_lt hcarry, Nat.add_zero]
    have hmod : (unit * e + f + 1) % unit = f + 1 := by
      rw [Nat.add_assoc, Nat.mul_add_mod, Nat.mod_eq_of_lt hcarry]
    rw [hdiv, hmod]
    by_cases he : e = 0
    · simp [he]
    · rw [if_neg he, if_neg he]
      ring
  · obtain rfl : unit = f + 1 := by omega
    have hnext : (f + 1) * e + f + 1 = (f + 1) * (e + 1) := by ring
    rw [hnext, Nat.mul_div_cancel_left _ hunit, Nat.mul_mod_right, if_neg (by omega)]
    cases e with
    | zero => simp
    | succ e =>
      rw [if_neg (by omega)]
      simp only [Nat.add_sub_cancel]
      ring

theorem strictMono_worth {unit : Nat} (hunit : 0 < unit) : StrictMono (worth unit) := by
  refine strictMono_nat_of_lt_succ fun m => ?_
  rw [worth_succ hunit]
  exact Nat.lt_add_of_pos_right (Nat.two_pow_pos _)

/-! ## The fields of a number -/

namespace Binary32

/-- The magnitude of a finite number as a multiple of 2^-149. -/
def units (x : Binary32) : Nat :=
  worth exponentUnit x.magnitude

def isInfinite (x : Binary32) : Bool :=
  x.exponent == 255 && x.fraction == 0

variable {x : Binary32}

theorem magnitude_lt (x : Binary32) : x.magnitude < signBit :=
  Nat.mod_lt _ (by decide)

theorem exponent_eq (x : Binary32) : x.exponent = x.magnitude / exponentUnit := by
  unfold exponent magnitude signBit exponentUnit
  omega

theorem fraction_eq (x : Binary32) : x.fraction = x.magnitude % exponentUnit := by
  unfold fraction magnitude signBit exponentUnit
  omega

theorem isFinite_iff : x.isFinite = true ↔ x.magnitude < 255 * exponentUnit := by
  have hlt := x.magnitude_lt
  unfold isFinite
  rw [exponent_eq, bne_iff_ne]
  unfold signBit at hlt
  unfold exponentUnit
  omega

theorem isInfinite_iff : x.isInfinite = true ↔ x.magnitude = 255 * exponentUnit := by
  unfold isInfinite
  rw [exponent_eq, fraction_eq, Bool.and_eq_true, beq_iff_eq, beq_iff_eq]
  unfold exponentUnit
  omega

theorem isNaN_iff : x.isNaN = true ↔ 255 * exponentUnit < x.magnitude := by
  have hlt := x.magnitude_lt
  unfold isNaN
  rw [exponent_eq, fraction_eq, Bool.and_eq_true, beq_iff_eq, bne_iff_ne]
  unfold signBit at hlt
  unfold exponentUnit
  omega

theorem toNat_ofMagnitude (negative : Bool) {m : Nat} (h : m < signBit) :
    (ofMagnitude negative m).bits.toNat = (if negative then signBit else 0) + m := by
  unfold ofMagnitude
  rw [UInt32.toNat_ofNat']
  unfold signBit at h ⊢
  split <;> omega

theorem isNegative_ofMagnitude (negative : Bool) {m : Nat} (h : m < signBit) :
    (ofMagnitude negative m).isNegative = negative := by
  unfold isNegative
  rw [toNat_ofMagnitude negative h]
  cases negative <;> simp [h]

theorem magnitude_ofMagnitude (negative : Bool) {m : Nat} (h : m < signBit) :
    (ofMagnitude negative m).magnitude = m := by
  unfold magnitude
  rw [toNat_ofMagnitude negative h]
  cases negative <;> simp [Nat.mod_eq_of_lt h]

/-- A number is its sign and its magnitude. -/
theorem ofMagnitude_self (x : Binary32) : ofMagnitude x.isNegative x.magnitude = x := by
  have hlt := x.bits.toNat_lt
  obtain ⟨bits⟩ := x
  unfold ofMagnitude isNegative magnitude
  simp only [mk.injEq, ← UInt32.toNat_inj, UInt32.toNat_ofNat', decide_eq_true_eq]
  simp only at hlt
  unfold signBit
  split <;> omega

end Binary32

namespace Binary64

/-- The magnitude of a finite number as a multiple of 2^-1074. -/
def units (x : Binary64) : Nat :=
  worth exponentUnit x.magnitude

def isInfinite (x : Binary64) : Bool :=
  x.exponent == 2047 && x.fraction == 0

variable {x : Binary64}

theorem magnitude_lt (x : Binary64) : x.magnitude < signBit :=
  Nat.mod_lt _ (by decide)

theorem exponent_eq (x : Binary64) : x.exponent = x.magnitude / exponentUnit := by
  unfold exponent magnitude signBit exponentUnit
  omega

theorem fraction_eq (x : Binary64) : x.fraction = x.magnitude % exponentUnit := by
  unfold fraction magnitude signBit exponentUnit
  omega

theorem isFinite_iff : x.isFinite = true ↔ x.magnitude < 2047 * exponentUnit := by
  have hlt := x.magnitude_lt
  unfold isFinite
  rw [exponent_eq, bne_iff_ne]
  unfold signBit at hlt
  unfold exponentUnit
  omega

theorem isNaN_iff : x.isNaN = true ↔ 2047 * exponentUnit < x.magnitude := by
  have hlt := x.magnitude_lt
  unfold isNaN
  rw [exponent_eq, fraction_eq, Bool.and_eq_true, beq_iff_eq, bne_iff_ne]
  unfold signBit at hlt
  unfold exponentUnit
  omega

theorem isInfinite_iff : x.isInfinite = true ↔ x.magnitude = 2047 * exponentUnit := by
  unfold isInfinite
  rw [exponent_eq, fraction_eq, Bool.and_eq_true, beq_iff_eq, beq_iff_eq]
  unfold exponentUnit
  omega

theorem toNat_ofMagnitude (negative : Bool) {m : Nat} (h : m < signBit) :
    (ofMagnitude negative m).bits.toNat = (if negative then signBit else 0) + m := by
  unfold ofMagnitude
  rw [UInt64.toNat_ofNat']
  unfold signBit at h ⊢
  split <;> omega

theorem isNegative_ofMagnitude (negative : Bool) {m : Nat} (h : m < signBit) :
    (ofMagnitude negative m).isNegative = negative := by
  unfold isNegative
  rw [toNat_ofMagnitude negative h]
  cases negative <;> simp [h]

theorem magnitude_ofMagnitude (negative : Bool) {m : Nat} (h : m < signBit) :
    (ofMagnitude negative m).magnitude = m := by
  unfold magnitude
  rw [toNat_ofMagnitude negative h]
  cases negative <;> simp [Nat.mod_eq_of_lt h]

/-! ## Too large for 32 bits -/

/-- The magnitude of the largest finite number of 32 bits. -/
theorem worth_greatest32 :
    worth exponentUnit greatest32 =
      worth Binary32.exponentUnit (255 * Binary32.exponentUnit - 1) * 2 ^ 925 := by
  decide +kernel

/-- Too large are just the finite numbers that are greater than all finite numbers of 32 bits. -/
theorem exceeds32_iff :
    x.exceeds32 = true ↔
      x.isFinite = true ∧ ∀ y : Binary32, y.isFinite = true → y.units * 2 ^ 925 < x.units := by
  have horder : greatest32 < x.magnitude ↔ worth exponentUnit greatest32 < x.units :=
    (strictMono_worth (by decide)).lt_iff_lt.symm
  unfold exceeds32
  rw [Bool.and_eq_true, decide_eq_true_eq, horder, worth_greatest32]
  refine and_congr_right fun _ => ⟨fun hgreater y hy => ?_, fun hall => ?_⟩
  · have hle : y.units ≤ worth Binary32.exponentUnit (255 * Binary32.exponentUnit - 1) :=
      (strictMono_worth (by decide)).monotone (Nat.le_sub_one_of_lt (Binary32.isFinite_iff.1 hy))
    exact Nat.lt_of_le_of_lt (Nat.mul_le_mul_right _ hle) hgreater
  · have hlargest := hall ⟨0x7F7FFFFF⟩ (by decide)
    unfold Binary32.units at hlargest
    rwa [show Binary32.magnitude ⟨0x7F7FFFFF⟩ = 255 * Binary32.exponentUnit - 1 by decide]
      at hlargest

end Binary64

/-! ## Rounding -/

/-- Rounding cuts off at most half of a unit, or adds to what is at least half of one. -/
theorem roundedShift_cases (n k : Nat) :
    roundedShift n k = n / 2 ^ k ∧ 2 * (n % 2 ^ k) ≤ 2 ^ k ∨
      roundedShift n k = n / 2 ^ k + 1 ∧ 2 ^ k ≤ 2 * (n % 2 ^ k) := by
  have hround : roundedShift n k =
      if 2 * (n % 2 ^ k) < 2 ^ k then n / 2 ^ k
      else if 2 ^ k < 2 * (n % 2 ^ k) then n / 2 ^ k + 1
      else n / 2 ^ k + n / 2 ^ k % 2 := rfl
  rw [hround]
  split
  · exact .inl ⟨rfl, by omega⟩
  · split <;> omega

/-- Rounding does not leave a bound that is a whole number. -/
theorem roundedShift_le {n k q : Nat} (h : n ≤ q * 2 ^ k) : roundedShift n k ≤ q := by
  have hpos := Nat.two_pow_pos k
  have hle : n / 2 ^ k ≤ q := Nat.div_le_of_le_mul (by rwa [Nat.mul_comm])
  rcases roundedShift_cases n k with ⟨hround, -⟩ | ⟨hround, hrest⟩
  · omega
  · -- what is left over cannot stand above the bound
    have hne : n / 2 ^ k ≠ q := by
      rintro rfl
      have hsplit := Nat.div_add_mod n (2 ^ k)
      rw [Nat.mul_comm] at hsplit
      omega
    omega

theorem roundedShift_mul (q k : Nat) : roundedShift (q * 2 ^ k) k = q := by
  have hpos := Nat.two_pow_pos k
  have hrest := Nat.mul_mod_left q (2 ^ k)
  have hdiv := Nat.mul_div_cancel q hpos
  rcases roundedShift_cases (q * 2 ^ k) k with ⟨hround, -⟩ | ⟨-, hhalf⟩
  · rw [hround, hdiv]
  · omega

/-! ## From 64 bits to 32 -/

namespace Binary64

variable {x : Binary64}

/-- The magnitude in 32 bits. -/
def narrowed (x : Binary64) : Nat :=
  if x.exponent = 2047 then
    255 * Binary32.exponentUnit +
      (if x.fraction = 0 then 0 else x.fraction / fractionRatio ||| Binary32.quietBit)
  else if x.exponent = 0 then 0
  else
    (x.exponent - 897) * Binary32.exponentUnit +
      roundedShift x.significand (fractionRatioBits + (897 - x.exponent))

theorem narrow_eq (x : Binary64) : x.narrow = .ofMagnitude x.isNegative x.narrowed :=
  rfl

theorem significand_lt (x : Binary64) : x.significand < 0x20000000000000 := by
  have hlt : x.fraction < exponentUnit := Nat.mod_lt _ (by decide)
  unfold significand
  unfold exponentUnit at hlt ⊢
  omega

/-- A number that is not too large does not become infinite by rounding. The largest significand is
reached just below the bound, and there it ends in zeros where it is cut off. -/
theorem narrowed_lt (h : x.magnitude ≤ greatest32) : x.narrowed < 255 * Binary32.exponentUnit := by
  have hexponent := x.exponent_eq
  have hfraction := x.fraction_eq
  have hsignificand := x.significand_lt
  unfold greatest32 at h
  unfold exponentUnit at hexponent hfraction
  have hle : x.exponent ≤ 1150 := by omega
  unfold narrowed
  rw [if_neg (by omega)]
  by_cases hzero : x.exponent = 0
  · rw [if_pos hzero]
    decide
  rw [if_neg hzero]
  unfold fractionRatioBits Binary32.exponentUnit
  rcases Nat.lt_trichotomy x.exponent 1150 with hlow | htop | hhigh
  · by_cases hnormal : 897 ≤ x.exponent
    · -- a carry reaches the next exponent at most, which is not yet the last one
      have hround : roundedShift x.significand (29 + (897 - x.exponent)) ≤ 0x1000000 := by
        refine roundedShift_le ?_
        rw [Nat.sub_eq_zero_of_le hnormal]
        omega
      omega
    · -- below the normal range, where rounding can reach the first normal number
      have hround : roundedShift x.significand (29 + (897 - x.exponent)) ≤ 0x800000 := by
        have hpow : 2 ^ 30 ≤ 2 ^ (29 + (897 - x.exponent)) :=
          Nat.pow_le_pow_right (by decide) (by omega)
        refine roundedShift_le ?_
        omega
      omega
  · have hround : roundedShift x.significand (29 + (897 - x.exponent)) ≤ 0xFFFFFF := by
      refine roundedShift_le ?_
      rw [htop]
      unfold significand exponentUnit
      omega
    omega
  · omega

theorem narrowed_of_infinite (h : x.magnitude = 2047 * exponentUnit) :
    x.narrowed = 255 * Binary32.exponentUnit := by
  have hexponent : x.exponent = 2047 := by rw [exponent_eq, h]; rfl
  have hfraction : x.fraction = 0 := by rw [fraction_eq, h]; rfl
  unfold narrowed
  rw [if_pos hexponent, if_pos hfraction, Nat.add_zero]

theorem narrowed_of_nan (h : 2047 * exponentUnit < x.magnitude) :
    255 * Binary32.exponentUnit < x.narrowed ∧ x.narrowed < Binary32.signBit := by
  have hlt := x.magnitude_lt
  have hexponent := x.exponent_eq
  have hfraction := x.fraction_eq
  unfold signBit at hlt
  unfold exponentUnit at h hexponent hfraction
  have hquiet : Binary32.quietBit ≤ x.fraction / fractionRatio ||| Binary32.quietBit :=
    Nat.right_le_or
  have hpayload : x.fraction / fractionRatio ||| Binary32.quietBit < 2 ^ 23 := by
    refine Nat.or_lt_two_pow ?_ (by decide)
    unfold fractionRatio
    omega
  unfold narrowed
  rw [if_pos (by omega), if_neg (by omega)]
  unfold Binary32.quietBit at hquiet hpayload ⊢
  unfold Binary32.exponentUnit Binary32.signBit
  omega

/-- A number of 32 bits is of the kind that a number of 64 bits is: finite, infinite or no number.
Unless it is no number it has the sign too. -/
structure Keeps (x : Binary64) (y : Binary32) : Prop where
  isFinite : y.isFinite = x.isFinite
  isInfinite : y.isInfinite = x.isInfinite
  isNaN : y.isNaN = x.isNaN
  isNegative : x.isNaN = false → y.isNegative = x.isNegative

/-- The kind depends on how the magnitude compares to that of the infinities. -/
theorem keeps_of_magnitude {y : Binary32}
    (hlt : x.magnitude < 2047 * exponentUnit ↔ y.magnitude < 255 * Binary32.exponentUnit)
    (heq : x.magnitude = 2047 * exponentUnit ↔ y.magnitude = 255 * Binary32.exponentUnit)
    (hsign : y.isNegative = x.isNegative) : x.Keeps y where
  isFinite := by rw [Bool.eq_iff_iff, isFinite_iff, Binary32.isFinite_iff, hlt]
  isInfinite := by rw [Bool.eq_iff_iff, isInfinite_iff, Binary32.isInfinite_iff, heq]
  isNaN := by
    rw [Bool.eq_iff_iff, isNaN_iff, Binary32.isNaN_iff]
    omega
  isNegative _ := hsign

theorem le_greatest32_of_not_exceeds32 (h : x.exceeds32 = false)
    (hfinite : x.magnitude < 2047 * exponentUnit) : x.magnitude ≤ greatest32 := by
  by_contra hgreater
  have hexceeds : x.exceeds32 = true := by
    unfold exceeds32
    rw [isFinite_iff.2 hfinite, Bool.true_and, decide_eq_true_eq]
    omega
  rw [h] at hexceeds
  cases hexceeds

/-- A number that is not too large stays what it is. -/
theorem keeps_narrow (h : x.exceeds32 = false) : x.Keeps x.narrow := by
  have hsignBit : 255 * Binary32.exponentUnit < Binary32.signBit := by decide
  have hkind : x.narrowed < Binary32.signBit ∧
      (x.magnitude < 2047 * exponentUnit ↔ x.narrowed < 255 * Binary32.exponentUnit) ∧
      (x.magnitude = 2047 * exponentUnit ↔ x.narrowed = 255 * Binary32.exponentUnit) := by
    rcases Nat.lt_trichotomy x.magnitude (2047 * exponentUnit) with hfinite | hinfinite | hnan
    · have hlt := narrowed_lt (le_greatest32_of_not_exceeds32 h hfinite)
      omega
    · have heq := narrowed_of_infinite hinfinite
      omega
    · have hgt := narrowed_of_nan hnan
      omega
  obtain ⟨hbound, hlt, heq⟩ := hkind
  rw [narrow_eq]
  refine keeps_of_magnitude ?_ ?_ (Binary32.isNegative_ofMagnitude _ hbound)
  · rw [Binary32.magnitude_ofMagnitude _ hbound, hlt]
  · rw [Binary32.magnitude_ofMagnitude _ hbound, heq]

/-- The fields of a number whose magnitude is put together from them. -/
theorem fields_of_magnitude {e f : Nat} (h : x.magnitude = e * exponentUnit + f)
    (hf : f < exponentUnit) : x.exponent = e ∧ x.fraction = f := by
  rw [exponent_eq, fraction_eq, h]
  unfold exponentUnit at hf ⊢
  omega

end Binary64

/-! ## From 32 bits to 64 and back -/

namespace Binary32

variable {x : Binary32}

/-- The magnitude in 64 bits. -/
def widened (x : Binary32) : Nat :=
  if x.exponent = 255 then
    2047 * Binary64.exponentUnit +
      (if x.fraction = 0 then 0 else (x.fraction ||| quietBit) * fractionRatio)
  else if x.exponent = 0 then
    if x.fraction = 0 then 0
    else
      let top := x.fraction.log2
      (top + 874) * Binary64.exponentUnit + (x.fraction - Nat.pow 2 top) * Nat.pow 2 (52 - top)
  else (x.exponent + 896) * Binary64.exponentUnit + x.fraction * fractionRatio

theorem widen_eq (x : Binary32) : x.widen = .ofMagnitude x.isNegative x.widened :=
  rfl

theorem fraction_lt (x : Binary32) : x.fraction < exponentUnit :=
  Nat.mod_lt _ (by decide)

theorem magnitude_eq (x : Binary32) : x.magnitude = x.exponent * exponentUnit + x.fraction := by
  rw [exponent_eq, fraction_eq, Nat.mul_comm, Nat.div_add_mod]

/-- Below the normal range the highest bit of the fraction becomes the bit above it. -/
theorem leading_bit {f : Nat} (hf : f ≠ 0) (hlt : f < exponentUnit) :
    f.log2 ≤ 22 ∧ (f - 2 ^ f.log2) * 2 ^ (52 - f.log2) < Binary64.exponentUnit ∧
      Binary64.exponentUnit + (f - 2 ^ f.log2) * 2 ^ (52 - f.log2) = f * 2 ^ (52 - f.log2) := by
  have htop : f.log2 < 23 := (Nat.log2_lt hf).2 hlt
  have hlow : 2 ^ f.log2 ≤ f := Nat.log2_self_le hf
  have hhigh : f < 2 ^ (f.log2 + 1) := Nat.lt_log2_self
  generalize f.log2 = top at htop hlow hhigh
  have hunit : Binary64.exponentUnit = 2 ^ top * 2 ^ (52 - top) := by
    rw [← Nat.pow_add, Nat.add_sub_cancel' (by omega)]
    rfl
  rw [hunit]
  refine ⟨by omega, ?_, ?_⟩
  · refine Nat.mul_lt_mul_of_pos_right ?_ (Nat.two_pow_pos _)
    rw [Nat.pow_succ] at hhigh
    omega
  · rw [← Nat.add_mul, Nat.add_sub_cancel' hlow]

theorem narrowed_below_normal {z : Binary64} {f : Nat} (hf : f ≠ 0) (hlt : f < exponentUnit)
    (hz : z.magnitude = (f.log2 + 874) * Binary64.exponentUnit +
      (f - 2 ^ f.log2) * 2 ^ (52 - f.log2)) : z.narrowed = f := by
  obtain ⟨htop, hfraction, hleading⟩ := leading_bit hf hlt
  obtain ⟨hexponent, hz⟩ := Binary64.fields_of_magnitude hz hfraction
  have hsignificand : z.significand = f * 2 ^ (52 - f.log2) := by
    unfold Binary64.significand
    rw [hz, hleading]
  have hshift : fractionRatioBits + (897 - z.exponent) = 52 - f.log2 := by
    unfold fractionRatioBits
    omega
  unfold Binary64.narrowed
  rw [if_neg (by omega), if_neg (by omega), hshift, hsignificand, roundedShift_mul,
    show z.exponent - 897 = 0 by omega, Nat.zero_mul, Nat.zero_add]

theorem narrowed_normal {z : Binary64} {e f : Nat} (he : 0 < e) (hfinite : e < 255)
    (hlt : f < exponentUnit)
    (hz : z.magnitude = (e + 896) * Binary64.exponentUnit + f * fractionRatio) :
    z.narrowed = e * exponentUnit + f := by
  have hfraction : f * fractionRatio < Binary64.exponentUnit := by
    unfold fractionRatio Binary64.exponentUnit
    unfold exponentUnit at hlt
    omega
  obtain ⟨hexponent, hz⟩ := Binary64.fields_of_magnitude hz hfraction
  have hsignificand : z.significand = (exponentUnit + f) * 2 ^ 29 := by
    unfold Binary64.significand
    rw [hz]
    unfold fractionRatio Binary64.exponentUnit exponentUnit
    omega
  have hshift : fractionRatioBits + (897 - z.exponent) = 29 := by
    unfold fractionRatioBits
    omega
  unfold Binary64.narrowed
  rw [if_neg (by omega), if_neg (by omega), hshift, hsignificand, roundedShift_mul]
  unfold exponentUnit
  omega

theorem widened_of_infinite (hnan : x.isNaN = false) (hinfinite : x.exponent = 255) :
    x.widened = 2047 * Binary64.exponentUnit := by
  have hfraction : x.fraction = 0 := by simpa [isNaN, hinfinite] using hnan
  unfold widened
  rw [if_pos hinfinite, if_pos hfraction, Nat.add_zero]

/-- The magnitude comes back. -/
theorem narrowed_of_widened (hnan : x.isNaN = false) {z : Binary64} (hz : z.magnitude = x.widened) :
    z.narrowed = x.magnitude := by
  have hlt := x.fraction_lt
  by_cases hinfinite : x.exponent = 255
  · have hfraction : x.fraction = 0 := by simpa [isNaN, hinfinite] using hnan
    rw [widened_of_infinite hnan hinfinite] at hz
    rw [Binary64.narrowed_of_infinite hz, magnitude_eq, hinfinite, hfraction, Nat.add_zero]
  rw [magnitude_eq]
  unfold widened at hz
  rw [if_neg hinfinite] at hz
  by_cases hzero : x.exponent = 0
  · rw [if_pos hzero] at hz
    rw [hzero, Nat.zero_mul, Nat.zero_add]
    by_cases hfraction : x.fraction = 0
    · rw [if_pos hfraction] at hz
      obtain ⟨hexponent, -⟩ := Binary64.fields_of_magnitude (e := 0) (f := 0) hz (by decide)
      unfold Binary64.narrowed
      rw [if_neg (by omega), if_pos hexponent, hfraction]
    · rw [if_neg hfraction] at hz
      exact narrowed_below_normal hfraction hlt hz
  · rw [if_neg hzero] at hz
    have hbyte : x.exponent < 256 := Nat.mod_lt _ (by decide)
    exact narrowed_normal (by omega) (by omega) hlt hz

theorem widened_le (hfinite : x.exponent ≠ 255) : x.widened ≤ Binary64.greatest32 := by
  have hlt := x.fraction_lt
  have hbyte : x.exponent < 256 := Nat.mod_lt _ (by decide)
  unfold widened Binary64.greatest32
  rw [if_neg hfinite]
  unfold exponentUnit at hlt
  by_cases hzero : x.exponent = 0
  · rw [if_pos hzero]
    by_cases hfraction : x.fraction = 0
    · rw [if_pos hfraction]
      decide
    · rw [if_neg hfraction]
      obtain ⟨htop, hbelow, -⟩ := leading_bit hfraction hlt
      show (x.fraction.log2 + 874) * Binary64.exponentUnit +
        (x.fraction - 2 ^ x.fraction.log2) * 2 ^ (52 - x.fraction.log2) ≤ _
      unfold Binary64.exponentUnit at hbelow ⊢
      omega
  · rw [if_neg hzero]
    unfold Binary64.exponentUnit fractionRatio
    omega

theorem widened_lt (hnan : x.isNaN = false) : x.widened < Binary64.signBit := by
  by_cases hinfinite : x.exponent = 255
  · rw [widened_of_infinite hnan hinfinite]
    decide
  · exact Nat.lt_of_le_of_lt (widened_le hinfinite) (by decide)

/-- A number of 32 bits is not too large for 32 bits. -/
theorem exceeds32_widen (hnan : x.isNaN = false) : x.widen.exceeds32 = false := by
  have hmagnitude := Binary64.magnitude_ofMagnitude x.isNegative (widened_lt hnan)
  rw [← widen_eq] at hmagnitude
  unfold Binary64.exceeds32
  rw [Bool.and_eq_false_iff, decide_eq_false_iff_not, hmagnitude]
  by_cases hinfinite : x.exponent = 255
  · refine .inl (Bool.eq_false_iff.2 fun hfinite => ?_)
    rw [Binary64.isFinite_iff, hmagnitude, widened_of_infinite hnan hinfinite] at hfinite
    exact Nat.lt_irrefl _ hfinite
  · exact .inr (Nat.not_lt.2 (widened_le hinfinite))

/-- A number of 32 bits comes back from 64 bits. -/
theorem narrow_widen (hnan : x.isNaN = false) : x.widen.narrow = x := by
  have hbound := widened_lt hnan
  have hmagnitude := Binary64.magnitude_ofMagnitude x.isNegative hbound
  have hsign := Binary64.isNegative_ofMagnitude x.isNegative hbound
  rw [← widen_eq] at hmagnitude hsign
  rw [Binary64.narrow_eq, hsign, narrowed_of_widened hnan hmagnitude, ofMagnitude_self]

end Binary32

end QueryBook
