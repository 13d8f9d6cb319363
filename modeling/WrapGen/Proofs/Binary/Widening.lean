import Mathlib.Algebra.Group.Nat.Defs
import WrapGen.Binary.Rounding

/-!
# Words that are rounded exactly

A finite word is `units · 2^unitExponent`. Written with a smaller unit it is the
same number, and rounding gives the word back (`roundMagnitude_rescaled`). A
number of few digits is the significand of a word of the wider format
(`units_ofParts_roundMagnitude`), so a 32-bit word can be widened without a
change of its value.

* `Single.narrow_widen`: a 32-bit word that is no NaN survives widening and
  narrowing, its sign and the two infinities included.
-/
namespace WrapGen.Binary

/-! ## Formats -/

namespace Format

theorem leadingBit_pos (f : Format) : 0 < f.leadingBit := Nat.two_pow_pos _

theorem infinity_lt_signBit (f : Format) : f.infinity < f.signBit := by
  have hexp : 0 < 2 ^ f.exponentBits := Nat.two_pow_pos _
  have hsplit : f.signBit = 2 ^ f.exponentBits * f.leadingBit := Nat.pow_add 2 _ _
  rw [hsplit]
  exact Nat.mul_lt_mul_of_pos_right (Nat.sub_lt hexp Nat.one_pos) f.leadingBit_pos

end Format

namespace Word

variable {f : Format}

/-! ## The parts of a word -/

theorem magnitude_lt (x : Word f) : x.magnitude < f.signBit :=
  Nat.mod_lt _ (Nat.two_pow_pos _)

theorem toNat_ofParts {negative : Bool} {m : Nat} (h : m < f.signBit) :
    (ofParts negative m : Word f).bits.toNat = (if negative then f.signBit else 0) + m := by
  have hwidth : 2 ^ f.width = f.signBit * 2 := Nat.pow_succ 2 f.magnitudeBits
  show (BitVec.ofNat f.width _).toNat = _
  rw [BitVec.toNat_ofNat, hwidth]
  apply Nat.mod_eq_of_lt
  split <;> omega

theorem isNegative_ofParts {negative : Bool} {m : Nat} (h : m < f.signBit) :
    (ofParts negative m : Word f).isNegative = negative := by
  rw [isNegative, toNat_ofParts h]
  cases negative
  · simpa using h
  · simp

theorem magnitude_ofParts {negative : Bool} {m : Nat} (h : m < f.signBit) :
    (ofParts negative m : Word f).magnitude = m := by
  rw [magnitude, toNat_ofParts h]
  cases negative
  · simpa using Nat.mod_eq_of_lt h
  · simpa using Nat.mod_eq_of_lt h

/-- A word is made of its sign and its magnitude. -/
theorem ofParts_self (x : Word f) : ofParts x.isNegative x.magnitude = x := by
  have hbits : (ofParts x.isNegative x.magnitude : Word f).bits = x.bits := by
    apply BitVec.eq_of_toNat_eq
    rw [toNat_ofParts x.magnitude_lt, ← toNat_bits]
  exact congrArg Word.mk hbits

/-! ## Significands -/

theorem fractionField_lt (x : Word f) : x.fractionField < f.leadingBit :=
  Nat.mod_lt _ f.leadingBit_pos

theorem magnitude_eq (x : Word f) :
    x.magnitude = x.exponentField * f.leadingBit + x.fractionField :=
  (Nat.div_add_mod' _ _).symm

/-- The magnitude counts the units of a word from the least exponent on. -/
theorem magnitude_eq_units (x : Word f) :
    x.magnitude = (x.exponentField - 1) * f.leadingBit + x.units := by
  rw [magnitude_eq, units]
  split
  · rename_i h
    simp [h]
  · rename_i h
    obtain ⟨e, he⟩ := Nat.exists_eq_succ_of_ne_zero h
    rw [he, Nat.succ_sub_one, Nat.succ_mul, Nat.add_assoc]

/-- The significand of a word has all digits, or its exponent is the least. -/
theorem units_bounds (x : Word f) :
    x.units < 2 * f.leadingBit ∧ (f.leadingBit ≤ x.units ∨ x.exponentField = 0) := by
  have := x.fractionField_lt
  rw [units]
  split
  · rename_i h
    exact ⟨by omega, Or.inr h⟩
  · exact ⟨by omega, Or.inl (Nat.le_add_right _ _)⟩

theorem units_eq_zero_iff (x : Word f) : x.units = 0 ↔ x.magnitude = 0 := by
  have hpos := f.leadingBit_pos
  constructor
  · intro h
    rw [magnitude_eq_units, h, (x.units_bounds.2.resolve_left (by omega))]
    simp
  · intro h
    rw [magnitude_eq_units] at h
    omega

/-- A significand with all its digits, so many units of the given exponent, is
read back from the magnitude it makes. -/
theorem units_ofParts (negative : Bool) {e digits : Nat}
    (hlow : f.leadingBit ≤ digits) (hhigh : digits < 2 * f.leadingBit)
    (hfits : e * f.leadingBit + digits < f.signBit) :
    (ofParts negative (e * f.leadingBit + digits) : Word f).units = digits ∧
      (ofParts negative (e * f.leadingBit + digits) : Word f).unitExponent =
        f.leastExponent + e := by
  have hfield : (ofParts negative (e * f.leadingBit + digits) : Word f).exponentField = e + 1 := by
    rw [exponentField, magnitude_ofParts hfits]
    apply Nat.div_eq_of_lt_le
    · rw [Nat.succ_mul]
      omega
    · rw [Nat.succ_mul, Nat.succ_mul]
      omega
  have hmagnitude := magnitude_eq_units (ofParts negative (e * f.leadingBit + digits) : Word f)
  rw [magnitude_ofParts hfits, hfield, Nat.add_sub_cancel] at hmagnitude
  refine ⟨by omega, ?_⟩
  rw [unitExponent, hfield, Nat.add_sub_cancel]

end Word

/-! ## Rounding what needs no rounding -/

theorem roundShift_mul_pow (n s : Nat) : roundShift (n * 2 ^ s) s = n := by
  have hpos : 0 < 2 ^ s := Nat.two_pow_pos s
  unfold roundShift
  simp only [Nat.pow_eq, Nat.mul_mod_left, Nat.mul_div_cancel _ hpos, Nat.mul_zero, if_pos hpos]

theorem log2_mul_pow {m : Nat} (hm : m ≠ 0) (k : Nat) : (m * 2 ^ k).log2 = m.log2 + k := by
  rw [Nat.log2_eq_iff (Nat.mul_ne_zero hm (Nat.ne_of_gt (Nat.two_pow_pos k)))]
  obtain ⟨hlow, hhigh⟩ := (Nat.log2_eq_iff hm).mp rfl
  constructor
  · rw [Nat.pow_add]
    exact Nat.mul_le_mul_right _ hlow
  · rw [Nat.add_right_comm, Nat.pow_add]
    exact Nat.mul_lt_mul_of_pos_right hhigh (Nat.two_pow_pos k)

namespace Word

variable {f : Format}

/-- The unit of a word is the one that rounding its value chooses. -/
theorem unit_eq (x : Word f) (h : x.units ≠ 0) :
    max (x.unitExponent + (x.units.log2 : Int) - f.fractionBits) f.leastExponent =
      x.unitExponent := by
  obtain ⟨hhigh, hlow⟩ := x.units_bounds
  have hlog : x.units.log2 < f.fractionBits + 1 := by
    rw [Nat.log2_lt h, Nat.pow_succ, Nat.mul_comm]
    exact hhigh
  rcases hlow with hlow | hzero
  · have hfull : f.fractionBits ≤ x.units.log2 := (Nat.le_log2 h).mpr hlow
    have hleast : f.leastExponent ≤ x.unitExponent := by
      rw [unitExponent]
      omega
    omega
  · have hleast : x.unitExponent = f.leastExponent := by simp [unitExponent, hzero]
    omega

/-- Written with a smaller unit, a finite word rounds to itself. -/
theorem roundMagnitude_rescaled (x : Word f) (h : x.magnitude < f.infinity) (k : Nat) :
    f.roundMagnitude (x.units * 2 ^ k) (x.unitExponent - k) = x.magnitude := by
  have hmagnitude := x.magnitude_eq_units
  by_cases hzero : x.units = 0
  · rw [(units_eq_zero_iff x).mp hzero, hzero, Nat.zero_mul]
    rfl
  · have hne : x.units * 2 ^ k ≠ 0 := Nat.mul_ne_zero hzero (Nat.ne_of_gt (Nat.two_pow_pos k))
    have hunit : max (x.unitExponent - k + ((x.units * 2 ^ k).log2 : Int) - f.fractionBits)
        f.leastExponent = x.unitExponent := by
      rw [log2_mul_pow hzero]
      have := x.unit_eq hzero
      push_cast
      omega
    have hplace : (x.unitExponent - f.leastExponent).toNat = x.exponentField - 1 := by
      rw [unitExponent]
      omega
    unfold Format.roundMagnitude
    simp only [if_neg hne, hunit, hplace]
    have hdigits : (if x.unitExponent ≤ x.unitExponent - k then
        x.units * 2 ^ k * Nat.pow 2 (x.unitExponent - k - x.unitExponent).toNat
        else roundShift (x.units * 2 ^ k) (x.unitExponent - (x.unitExponent - k)).toNat) =
        x.units := by
      split
      · have hk : k = 0 := by omega
        subst hk
        simp
      · rw [show (x.unitExponent - (x.unitExponent - k)).toNat = k by omega, roundShift_mul_pow]
    rw [hdigits, ← hmagnitude]
    omega

end Word

/-- A number with room to spare in a format becomes the significand of the word
that it rounds to, with all its digits, and nothing is lost. -/
theorem Format.roundMagnitude_of_room {f : Format} {m e : Nat} {q : Int} (hm : m ≠ 0)
    (hlog : m.log2 ≤ f.fractionBits)
    (hplace : q + (m.log2 : Int) - f.fractionBits = f.leastExponent + e)
    (hfits : (e + 2) * f.leadingBit ≤ f.infinity) :
    f.roundMagnitude m q = e * f.leadingBit + m * 2 ^ (f.fractionBits - m.log2) ∧
      f.leadingBit ≤ m * 2 ^ (f.fractionBits - m.log2) ∧
      m * 2 ^ (f.fractionBits - m.log2) < 2 * f.leadingBit := by
  obtain ⟨hlow, hhigh⟩ := (Nat.log2_eq_iff hm).mp rfl
  have hsplit : f.leadingBit = 2 ^ m.log2 * 2 ^ (f.fractionBits - m.log2) := by
    rw [← Nat.pow_add, Nat.add_sub_cancel' hlog]
    rfl
  have hfull : f.leadingBit ≤ m * 2 ^ (f.fractionBits - m.log2) := by
    rw [hsplit]
    exact Nat.mul_le_mul_right _ hlow
  have hless : m * 2 ^ (f.fractionBits - m.log2) < 2 * f.leadingBit := by
    rw [hsplit, ← Nat.mul_assoc, Nat.mul_comm 2, ← Nat.pow_succ]
    exact Nat.mul_lt_mul_of_pos_right hhigh (Nat.two_pow_pos _)
  refine ⟨?_, hfull, hless⟩
  unfold Format.roundMagnitude
  have hunit : max (q + (m.log2 : Int) - f.fractionBits) f.leastExponent =
      f.leastExponent + e := by omega
  simp only [if_neg hm, hunit]
  rw [if_pos (by omega), show (f.leastExponent + e - f.leastExponent).toNat = e by omega,
    show (q - (f.leastExponent + e)).toNat = f.fractionBits - m.log2 by omega, Nat.pow_eq]
  rw [Nat.add_mul] at hfits
  omega

/-! ## Widening -/

section
variable {x : Single}

theorem Word.isNaN_of_lt {f : Format} {w : Word f} (h : w.magnitude < f.infinity) :
    w.isNaN = false := by
  rw [isNaN, decide_eq_false_iff_not]
  omega

theorem Word.isInfinite_of_lt {f : Format} {w : Word f} (h : w.magnitude < f.infinity) :
    w.isInfinite = false := by
  rw [isInfinite, beq_eq_false_iff_ne]
  omega

theorem Single.widen_of_finite (h : x.magnitude < Format.binary32.infinity) :
    Single.widen x = Word.ofParts x.isNegative
      (Format.binary64.roundMagnitude x.units x.unitExponent) := by
  rw [Single.widen, Word.isNaN_of_lt h, Word.isInfinite_of_lt h]
  rfl

theorem Double.narrow_of_finite {y : Double} (h : y.magnitude < Format.binary64.infinity) :
    Double.narrow y = Word.ofParts y.isNegative
      (Format.binary32.roundMagnitude y.units y.unitExponent) := by
  rw [Double.narrow, Word.isNaN_of_lt h, Word.isInfinite_of_lt h]
  rfl

/-- A zero becomes the zero of the same sign. -/
theorem Double.narrow_of_isZero {y : Double} (h : y.isZero = true) :
    Double.narrow y = Word.ofParts y.isNegative 0 := by
  have hzero : y.magnitude = 0 := beq_iff_eq.mp h
  rw [Double.narrow_of_finite (by rw [hzero]; decide), (Word.units_eq_zero_iff y).mpr hzero]
  rfl

/-- Widening keeps the value of a finite word that is not zero, with a smaller unit. -/
theorem Single.widen_units (hfinite : x.magnitude < Format.binary32.infinity)
    (hne : x.units ≠ 0) : ∃ k : Nat,
      (Single.widen x).magnitude < Format.binary64.infinity ∧
      (Single.widen x).isNegative = x.isNegative ∧
      (Single.widen x).units = x.units * 2 ^ k ∧
      (Single.widen x).unitExponent = x.unitExponent - k := by
  have hlog : x.units.log2 < 24 := (Nat.log2_lt hne).mpr x.units_bounds.1
  have hfield : x.exponentField < 255 := by
    rw [Word.exponentField, Nat.div_lt_iff_lt_mul Format.binary32.leadingBit_pos]
    exact hfinite
  have hexponent : x.unitExponent = -149 + ((x.exponentField - 1 : Nat) : Int) := rfl
  have hleast : Format.binary64.leastExponent = -1074 := rfl
  have hbits : Format.binary64.fractionBits = 52 := rfl
  have hinfinity : Format.binary64.infinity = 2047 * Format.binary64.leadingBit := rfl
  -- the unit of the wide word, counted from the least one
  obtain ⟨e, he⟩ : ∃ e : Nat, e = 873 + (x.exponentField - 1) + x.units.log2 := ⟨_, rfl⟩
  have hunit : Format.binary64.leastExponent + (e : Int) =
      x.unitExponent - ((Format.binary64.fractionBits - x.units.log2 : Nat) : Int) := by omega
  obtain ⟨hround, hlow, hhigh⟩ := Format.binary64.roundMagnitude_of_room hne
    (show x.units.log2 ≤ Format.binary64.fractionBits by omega)
    (show x.unitExponent + (x.units.log2 : Int) - Format.binary64.fractionBits =
      Format.binary64.leastExponent + e by omega)
    (by rw [hinfinity]; exact Nat.mul_le_mul_right _ (by omega))
  have hfits : e * Format.binary64.leadingBit +
      x.units * 2 ^ (Format.binary64.fractionBits - x.units.log2) < Format.binary64.infinity := by
    have : (e + 2) * Format.binary64.leadingBit ≤ 2047 * Format.binary64.leadingBit :=
      Nat.mul_le_mul_right _ (by omega)
    rw [Nat.add_mul] at this
    omega
  have hsign := Nat.lt_trans hfits Format.binary64.infinity_lt_signBit
  obtain ⟨hunits, hexact⟩ := Word.units_ofParts x.isNegative hlow hhigh hsign
  refine ⟨Format.binary64.fractionBits - x.units.log2, ?_⟩
  rw [Single.widen_of_finite hfinite, hround]
  refine ⟨?_, Word.isNegative_ofParts hsign, hunits, hexact.trans hunit⟩
  rw [Word.magnitude_ofParts hsign]
  exact hfits

theorem Single.narrow_widen_zero (h : x.magnitude = 0) : Double.narrow (Single.widen x) = x := by
  have hzero : (0 : Nat) < Format.binary64.infinity := by decide
  have hsign := Nat.lt_trans hzero Format.binary64.infinity_lt_signBit
  have hwide : Single.widen x = Word.ofParts x.isNegative 0 := by
    rw [Single.widen_of_finite (by rw [h]; decide), (Word.units_eq_zero_iff x).mpr h]
    rfl
  have hmagnitude : (Single.widen x).isZero = true := by
    rw [hwide, Word.isZero, Word.magnitude_ofParts hsign]
    rfl
  rw [Double.narrow_of_isZero hmagnitude, hwide, Word.isNegative_ofParts hsign, ← h, x.ofParts_self]

theorem Single.narrow_widen_infinity (h : x.magnitude = Format.binary32.infinity) :
    Double.narrow (Single.widen x) = x := by
  have hsign := Format.binary64.infinity_lt_signBit
  have hinfinite : x.isInfinite = true := by rw [Word.isInfinite, h, beq_self_eq_true]
  have hnumber : x.isNaN = false := by simp [Word.isNaN, h]
  have hwide : Single.widen x = Word.ofParts x.isNegative Format.binary64.infinity := by
    rw [Single.widen, hinfinite, hnumber]
    rfl
  have hmagnitude : (Single.widen x).magnitude = Format.binary64.infinity := by
    rw [hwide, Word.magnitude_ofParts hsign]
  have hinfinite' : (Single.widen x).isInfinite = true := by
    rw [Word.isInfinite, hmagnitude, beq_self_eq_true]
  have hnumber' : (Single.widen x).isNaN = false := by simp [Word.isNaN, hmagnitude]
  rw [Double.narrow, hinfinite', hnumber', hwide, Word.isNegative_ofParts hsign, ← h]
  exact x.ofParts_self

/-- A 32-bit word that is no NaN survives widening and narrowing. -/
theorem Single.narrow_widen (h : x.isNaN = false) : Double.narrow (Single.widen x) = x := by
  rw [Word.isNaN, decide_eq_false_iff_not] at h
  rcases Nat.lt_or_eq_of_le (Nat.le_of_not_lt h) with hfinite | hinfinite
  · by_cases hzero : x.units = 0
    · exact Single.narrow_widen_zero ((Word.units_eq_zero_iff x).mp hzero)
    · obtain ⟨k, hwide, hnegative, hunits, hunit⟩ := Single.widen_units hfinite hzero
      rw [Double.narrow_of_finite hwide, hnegative, hunits, hunit,
        x.roundMagnitude_rescaled hfinite k, x.ofParts_self]
  · exact Single.narrow_widen_infinity hinfinite

end

end WrapGen.Binary
