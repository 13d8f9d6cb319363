import Mathlib.Algebra.Order.Field.Power
import Mathlib.Tactic.FieldSimp
import Mathlib.Tactic.Linarith
import Mathlib.Tactic.Positivity
import Mathlib.Tactic.Ring
import WrapGen.Decimal.Shortest
import WrapGen.Proofs.Binary.Widening

/-!
# Decimals that read back

Whoever reads a decimal takes the word that is nearest to it, and of two equally near
ones that with the even fraction (`Word.Nearest`). No decimal has two such words
(`Word.Nearest.value_eq`). The interval of a word (`Neighbourhood.ofWord`) reaches halfway
to the words next to it, so a decimal in it is read as that word, and the search for the
fewest digits never leaves the interval.

* `Word.nearest_of_contains`: a decimal in the interval of a word is read as the word.
* `Word.nearest_shortest_iff`: the decimal that is written for a word is read as that word
  and as no other.
-/
namespace WrapGen.Binary.Word

open Decimal

variable {f : Format} {x y : Word f}

/-! ## Words as numbers -/

/-- The unit in the last place of a word. -/
def ulp (x : Word f) : ℚ := 2 ^ x.unitExponent

/-- The number that a word stands for, without its sign. For an infinity it is the power
of two past the greatest number. -/
def size (x : Word f) : ℚ := x.units * x.ulp

/-- A number with the sign of a word. -/
def signed (x : Word f) (q : ℚ) : ℚ := if x.isNegative then -q else q

/-- The number that a word stands for. -/
def value (x : Word f) : ℚ := x.signed x.size

/-- Whether a word is a number. -/
def isFinite (x : Word f) : Bool := x.magnitude < f.infinity

/-- Whether a number is read as a word: it is nearer to that word than to any other, or as
near to it as to another and the word is even. Beyond the greatest word the infinities
count. -/
structure Nearest (q : ℚ) (x : Word f) : Prop where
  finite : x.isFinite = true
  nearest : ∀ y : Word f, y.isNaN = false → y.value ≠ x.value →
    |q - x.value| < |q - y.value| ∨ |q - x.value| = |q - y.value| ∧ x.units % 2 = 0

theorem ulp_pos (x : Word f) : 0 < x.ulp := zpow_pos (by decide) _

theorem size_nonneg (x : Word f) : 0 ≤ x.size :=
  mul_nonneg (Nat.cast_nonneg _) x.ulp_pos.le

theorem ulp_eq (x : Word f) : x.ulp = 2 ^ f.leastExponent * 2 ^ (x.exponentField - 1) := by
  rw [ulp, unitExponent, zpow_add₀ (by decide), zpow_natCast]

theorem isNaN_of_isFinite (h : x.isFinite = true) : x.isNaN = false :=
  isNaN_of_lt (of_decide_eq_true h)

@[simp] theorem signed_sub (x : Word f) (p q : ℚ) : x.signed p - x.signed q = x.signed (p - q) := by
  unfold signed
  split <;> ring

@[simp] theorem abs_signed (x : Word f) (q : ℚ) : |x.signed q| = |q| := by
  unfold signed
  split
  · exact abs_neg q
  · rfl

@[simp] theorem signed_zero (x : Word f) : x.signed 0 = 0 := by
  unfold signed
  split <;> simp

theorem signed_signed (x : Word f) (q : ℚ) : x.signed (x.signed q) = q := by
  unfold signed
  split
  · exact neg_neg q
  · rfl

/-! ## The words next to a word -/

theorem units_congr (h : x.magnitude = y.magnitude) : x.units = y.units := by
  unfold units exponentField fractionField
  rw [h]

theorem size_congr (h : x.magnitude = y.magnitude) : x.size = y.size := by
  rw [size, size, units_congr h, ulp_eq, ulp_eq, exponentField, exponentField, h]

/-- Words with exponents of one step or more between them. -/
theorem two_mul_ulp_le (h : x.exponentField - 1 < y.exponentField - 1) :
    2 * x.ulp ≤ y.ulp := by
  rw [ulp_eq, ulp_eq, mul_left_comm, ← pow_succ']
  exact mul_le_mul_of_nonneg_left (pow_le_pow_right₀ (by norm_num) h) (by positivity)

theorem ulp_congr (h : x.exponentField - 1 = y.exponentField - 1) : x.ulp = y.ulp := by
  rw [ulp_eq, ulp_eq, h]

theorem cases_of_magnitude_lt (h : x.magnitude < y.magnitude) :
    (x.ulp = y.ulp ∧ x.units + 1 ≤ y.units) ∨
      (2 * x.ulp ≤ y.ulp ∧ x.units + 1 ≤ 2 * f.leadingBit ∧
        f.leadingBit + y.fractionField = y.units ∧ 1 < y.exponentField) := by
  have hfield : x.exponentField ≤ y.exponentField := Nat.div_le_div_right h.le
  rcases Nat.lt_or_eq_of_le (Nat.sub_le_sub_right hfield 1) with hlt | heq
  · refine .inr ⟨two_mul_ulp_le hlt, x.units_bounds.1, ?_, by omega⟩
    rw [units, if_neg (by omega)]
  · rw [magnitude_eq_units, magnitude_eq_units, heq] at h
    exact .inl ⟨ulp_congr heq, by omega⟩

/-- A greater word lies at least a unit above. -/
theorem size_add_ulp_le (h : x.magnitude < y.magnitude) : x.size + x.ulp ≤ y.size := by
  have hulp := x.ulp_pos
  have hsplit : x.size + x.ulp = ((x.units + 1 : ℕ) : ℚ) * x.ulp := by
    rw [size]
    push_cast
    ring
  rw [hsplit]
  rcases cases_of_magnitude_lt h with ⟨heq, hunits⟩ | ⟨hle, hx, hy, -⟩
  · rw [size, ← heq]
    exact mul_le_mul_of_nonneg_right (Nat.cast_le.mpr hunits) hulp.le
  · calc ((x.units + 1 : ℕ) : ℚ) * x.ulp
      _ ≤ ((2 * f.leadingBit : ℕ) : ℚ) * x.ulp :=
        mul_le_mul_of_nonneg_right (Nat.cast_le.mpr hx) hulp.le
      _ = (f.leadingBit : ℚ) * (2 * x.ulp) := by push_cast; ring
      _ ≤ (y.units : ℚ) * y.ulp :=
        mul_le_mul (Nat.cast_le.mpr (by omega)) hle (by positivity) (Nat.cast_nonneg _)

theorem size_lt (h : x.magnitude < y.magnitude) : x.size < y.size :=
  lt_of_lt_of_le (lt_add_of_pos_right _ x.ulp_pos) (size_add_ulp_le h)

theorem size_inj : x.size = y.size ↔ x.magnitude = y.magnitude := by
  refine ⟨fun h => ?_, size_congr⟩
  rcases Nat.lt_trichotomy x.magnitude y.magnitude with hlt | heq | hlt
  · exact absurd h (size_lt hlt).ne
  · exact heq
  · exact absurd h (size_lt hlt).ne'

theorem size_lt_iff : x.size < y.size ↔ x.magnitude < y.magnitude := by
  refine ⟨fun h => ?_, size_lt⟩
  rcases Nat.lt_trichotomy x.magnitude y.magnitude with hlt | heq | hlt
  · exact hlt
  · exact absurd (size_congr heq) h.ne
  · exact absurd (size_lt hlt) h.not_gt

/-- The step down from a word, in halves of its unit: below a power of two the words lie
twice as dense. -/
def stepDown (x : Word f) : ℕ := if x.fractionField = 0 ∧ 1 < x.exponentField then 1 else 2

theorem stepDown_bounds (x : Word f) : 1 ≤ x.stepDown ∧ x.stepDown ≤ 2 := by
  unfold stepDown
  split <;> decide

/-- A smaller word lies at least a step below. -/
theorem size_le_sub (h : y.magnitude < x.magnitude) :
    y.size ≤ x.size - x.stepDown / 2 * x.ulp := by
  have hulp := y.ulp_pos
  have hstep : (x.stepDown : ℚ) ≤ 2 := Nat.cast_le.mpr x.stepDown_bounds.2
  rcases cases_of_magnitude_lt h with ⟨heq, hunits⟩ | ⟨hle, hy, hx, hfield⟩
  · have hunits : (y.units : ℚ) + 1 ≤ x.units := by exact_mod_cast hunits
    rw [size, size, ← heq]
    nlinarith
  · -- what is left of the unit of `x` above `leadingBit` covers the step
    have hroom : (2 * f.leadingBit : ℕ) + (x.stepDown : ℚ) ≤ 2 * x.units + 1 := by
      have : 2 * f.leadingBit + x.stepDown ≤ 2 * x.units + 1 := by
        unfold stepDown
        split <;> omega
      exact_mod_cast this
    have hy : (y.units : ℚ) + 1 ≤ (2 * f.leadingBit : ℕ) := by exact_mod_cast hy
    have hcount : (0 : ℚ) ≤ (y.units : ℚ) := Nat.cast_nonneg _
    rw [size, size]
    nlinarith

/-! ## What is nearest -/

/-- Up to halfway to a greater number the smaller one is nearer, and halfway both are
equally near. -/
theorem abs_sub_of_le_half {q a b t : ℚ} (hab : a < b) (hq : q ≤ (a + b) / 2) (hbt : b ≤ t) :
    |q - a| < |q - t| ∨ |q - a| = |q - t| ∧ q = (a + b) / 2 := by
  have hqt : |q - t| = t - q := by rw [abs_sub_comm, abs_of_nonneg (by linarith)]
  rw [hqt]
  rcases le_total a q with h | h
  · rw [abs_of_nonneg (by linarith)]
    rcases lt_or_eq_of_le (show q - a ≤ t - q by linarith) with hlt | heq
    · exact .inl hlt
    · exact .inr ⟨heq, by linarith⟩
  · rw [abs_of_nonpos (by linarith)]
    exact .inl (by linarith)

/-- Every word of another value lies a step or more away. -/
theorem step_of_value_ne (hx : x.units ≠ 0) (h : y.value ≠ x.value) :
    x.size + x.ulp ≤ x.signed y.value ∨ x.signed y.value ≤ x.size - x.stepDown / 2 * x.ulp := by
  by_cases hsign : y.isNegative = x.isNegative
  · have hsigned : x.signed y.value = y.size := by
      rw [value, signed, signed, hsign]
      split <;> simp
    have hne : y.magnitude ≠ x.magnitude := fun heq => h (by
      rw [value, value, signed, signed, hsign, size_congr heq])
    rw [hsigned]
    rcases Nat.lt_or_gt_of_ne hne with hlt | hgt
    · exact .inr (size_le_sub hlt)
    · exact .inl (size_add_ulp_le hgt)
  · have hsigned : x.signed y.value = -y.size := by
      rw [value, signed, signed]
      cases hy : y.isNegative <;> cases hx : x.isNegative <;> simp_all
    have hstep : (x.stepDown : ℚ) ≤ 2 := Nat.cast_le.mpr x.stepDown_bounds.2
    have hunits : (1 : ℚ) ≤ x.units := by exact_mod_cast Nat.one_le_iff_ne_zero.mpr hx
    have hsize : x.ulp ≤ x.size := le_mul_of_one_le_left x.ulp_pos.le hunits
    have hdown : x.stepDown / 2 * x.ulp ≤ x.ulp :=
      mul_le_of_le_one_left x.ulp_pos.le (by linarith)
    rw [hsigned]
    exact .inr (by linarith [y.size_nonneg])

/-- A number is read as a word if it lies at most halfway to the words next to it, and
closer than that to an odd word. -/
theorem nearest_of_half {q : ℚ} (hfinite : x.isFinite = true) (hx : x.units ≠ 0)
    (hlow : x.size - x.stepDown / 4 * x.ulp ≤ q) (hhigh : q ≤ x.size + x.ulp / 2)
    (htie : q = x.size - x.stepDown / 4 * x.ulp ∨ q = x.size + x.ulp / 2 → x.units % 2 = 0) :
    Nearest (x.signed q) x := by
  refine ⟨hfinite, fun y _ hy => ?_⟩
  have hulp := x.ulp_pos
  have hstep : (0 : ℚ) < x.stepDown := Nat.cast_pos.mpr x.stepDown_bounds.1
  have hpos := mul_pos hstep hulp
  have hself : |x.signed q - x.value| = |q - x.size| := by rw [value, signed_sub, abs_signed]
  have hother : |x.signed q - y.value| = |q - x.signed y.value| := by
    rw [← x.signed_signed y.value, signed_sub, abs_signed, signed_signed]
  rw [hself, hother]
  rcases step_of_value_ne hx hy with h | h
  · refine (abs_sub_of_le_half (lt_add_of_pos_right _ hulp) (by linarith) h).imp_right ?_
    exact And.imp_right fun heq => htie (.inr (by linarith))
  · -- the same below, with the signs turned
    have hbelow := abs_sub_of_le_half (q := -q) (a := -x.size)
      (b := -(x.size - x.stepDown / 2 * x.ulp)) (t := -x.signed y.value) (by linarith)
      (by linarith) (neg_le_neg h)
    rw [← neg_sub', ← neg_sub', abs_neg, abs_neg] at hbelow
    exact hbelow.imp_right (And.imp_right fun heq => htie (.inl (by linarith)))

/-- A word of the given sign between two even words. -/
theorem exists_between (hf : 0 < f.fractionBits) (negative : Bool) (hx : x.units % 2 = 0)
    (hy : y.units % 2 = 0) (hfinite : y.isFinite = true) (h : x.size < y.size) :
    ∃ z : Word f, z.isNaN = false ∧ z.isNegative = negative ∧ x.size < z.size ∧
      z.size < y.size := by
  have hlt : x.magnitude < y.magnitude := size_lt_iff.mp h
  have hfinite : y.magnitude < f.infinity := of_decide_eq_true hfinite
  -- a word is even when its magnitude is
  have heven : ∀ w : Word f, w.units % 2 = 0 → w.magnitude % 2 = 0 := by
    intro w hw
    obtain ⟨n, hn⟩ := Nat.exists_eq_succ_of_ne_zero hf.ne'
    have hleading : f.leadingBit = 2 * 2 ^ n := by
      rw [Format.leadingBit, hn]
      exact Nat.pow_succ'
    rw [magnitude_eq_units, hleading, Nat.add_mod, Nat.mul_left_comm, Nat.mul_mod_right, hw]
  have hgap : x.magnitude + 1 < y.magnitude := by
    have := heven x hx
    have := heven y hy
    omega
  have hbits : x.magnitude + 1 < f.signBit :=
    Nat.lt_trans (Nat.lt_trans hgap hfinite) f.infinity_lt_signBit
  have hmagnitude : (ofParts negative (x.magnitude + 1) : Word f).magnitude = x.magnitude + 1 :=
    magnitude_ofParts hbits
  refine ⟨ofParts negative (x.magnitude + 1), isNaN_of_lt (by omega), isNegative_ofParts hbits,
    size_lt (by omega), size_lt (by omega)⟩

theorem value_zero : (zero : Word f).value = 0 := by
  have hmagnitude : (zero : Word f).magnitude = 0 := magnitude_ofParts (Nat.two_pow_pos _)
  have hsize : (zero : Word f).size = 0 := by
    rw [size, (units_eq_zero_iff _).mpr hmagnitude, Nat.cast_zero, zero_mul]
  rw [value, hsize, signed_zero]

theorem value_cases (x : Word f) : x.value = x.size ∧ x.isNegative = false ∨
    x.value = -x.size ∧ x.isNegative = true := by
  rw [value, signed]
  cases x.isNegative
  · exact .inl ⟨rfl, rfl⟩
  · exact .inr ⟨rfl, rfl⟩

theorem isNaN_zero (h : x.isFinite = true) : (zero : Word f).isNaN = false := by
  refine isNaN_of_lt (Nat.lt_of_le_of_lt (Nat.le_of_eq ?_)
    (Nat.lt_of_le_of_lt (Nat.zero_le _) (of_decide_eq_true h)))
  exact magnitude_ofParts (Nat.two_pow_pos _)

/-- There is a word between two even words, whatever their signs are. -/
theorem exists_value_between (hf : 0 < f.fractionBits) (hx : x.units % 2 = 0)
    (hy : y.units % 2 = 0) (hxfinite : x.isFinite = true) (hyfinite : y.isFinite = true)
    (h : x.value < y.value) : ∃ z : Word f, z.isNaN = false ∧ x.value < z.value ∧
      z.value < y.value := by
  have hxsize := x.size_nonneg
  have hysize := y.size_nonneg
  rcases lt_trichotomy x.size y.size with hlt | heq | hlt
  · -- `y` is the greater one in size, so it is positive
    obtain ⟨z, hz, hsign, hxz, hzy⟩ := exists_between hf false hx hy hyfinite hlt
    have hzvalue : z.value = z.size := by simpa [hsign] using z.value_cases
    refine ⟨z, hz, ?_, ?_⟩ <;> rcases x.value_cases with ⟨hxv, -⟩ | ⟨hxv, -⟩ <;>
      rcases y.value_cases with ⟨hyv, -⟩ | ⟨hyv, -⟩ <;> linarith
  · refine ⟨zero, isNaN_zero hxfinite, ?_, ?_⟩ <;> rw [value_zero] <;>
      rcases x.value_cases with ⟨hxv, -⟩ | ⟨hxv, -⟩ <;>
      rcases y.value_cases with ⟨hyv, -⟩ | ⟨hyv, -⟩ <;> linarith
  · obtain ⟨z, hz, hsign, hyz, hzx⟩ := exists_between hf true hy hx hxfinite hlt
    have hzvalue : z.value = -z.size := by simpa [hsign] using z.value_cases
    refine ⟨z, hz, ?_, ?_⟩ <;> rcases x.value_cases with ⟨hxv, -⟩ | ⟨hxv, -⟩ <;>
      rcases y.value_cases with ⟨hyv, -⟩ | ⟨hyv, -⟩ <;> linarith

/-- No number is read as two words of different values. -/
theorem Nearest.value_eq {q : ℚ} (hf : 0 < f.fractionBits) (hx : Nearest q x)
    (hy : Nearest q y) : x.value = y.value := by
  by_contra hne
  wlog hlt : x.value < y.value generalizing x y
  · exact this hy hx (Ne.symm hne) (lt_of_le_of_ne (le_of_not_gt hlt) (Ne.symm hne))
  have hxy := hx.nearest y (isNaN_of_isFinite hy.finite) (Ne.symm hne)
  have hyx := hy.nearest x (isNaN_of_isFinite hx.finite) hne
  -- neither is nearer, so both are even, and a word between them is nearer than both
  obtain ⟨heq, hxeven⟩ := hxy.resolve_left fun hless => by
    rcases hyx with hyx | ⟨hyx, -⟩
    · exact absurd hless hyx.not_gt
    · exact hless.ne hyx.symm
  obtain ⟨-, hyeven⟩ := hyx.resolve_left heq.not_gt
  obtain ⟨z, hz, hxz, hzy⟩ := exists_value_between hf hxeven hyeven hx.finite hy.finite hlt
  have hle : |q - x.value| ≤ |q - z.value| := by
    rcases hx.nearest z hz hxz.ne' with hless | ⟨hsame, -⟩
    · exact hless.le
    · exact hsame.le
  have hmid : 2 * q = x.value + y.value := by
    rcases abs_eq_abs.mp heq with h | h <;> linarith
  rw [show q - x.value = (y.value - x.value) / 2 by linarith,
    abs_of_pos (by linarith)] at hle
  rcases abs_cases (q - z.value) with ⟨h, -⟩ | ⟨h, -⟩ <;> linarith

theorem eq_of_value_eq (hx : x.units ≠ 0) (h : y.value = x.value) : y = x := by
  have hpos : 0 < x.size := mul_pos (by exact_mod_cast Nat.pos_of_ne_zero hx) x.ulp_pos
  have hysize := y.size_nonneg
  obtain ⟨hsize, hsign⟩ : y.size = x.size ∧ y.isNegative = x.isNegative := by
    rcases x.value_cases with ⟨hxv, hxs⟩ | ⟨hxv, hxs⟩ <;>
      rcases y.value_cases with ⟨hyv, hys⟩ | ⟨hyv, hys⟩ <;> rw [hxs, hys] <;>
      first | exact ⟨by linarith, rfl⟩ | linarith
  rw [← ofParts_self y, ← ofParts_self x, hsign, size_inj.mp hsize]

end WrapGen.Binary.Word

namespace WrapGen.Decimal

open Binary

/-- The number that a decimal stands for. -/
def value (d : Decimal) : ℚ := d.digits * 10 ^ d.exponent

theorem zpow_toNat_div {b : ℚ} (hb : b ≠ 0) (e : ℤ) : b ^ e.toNat / b ^ (-e).toNat = b ^ e := by
  rw [div_eq_iff (pow_ne_zero _ hb), ← zpow_natCast, ← zpow_natCast, ← zpow_add₀ hb]
  congr 1
  omega

namespace Neighbourhood

variable {b : Neighbourhood} {d : Decimal} {f : Format} {x : Word f}

theorem contains_iff (hb : 0 < b.denominator) : b.contains d = true ↔
    (b.low / b.denominator < d.value ∨ b.closed = true ∧ b.low / b.denominator = d.value) ∧
      (d.value < b.high / b.denominator ∨ b.closed = true ∧ d.value = b.high / b.denominator) := by
  have hden : (0 : ℚ) < b.denominator := Nat.cast_pos.mpr hb
  have hten : (0 : ℚ) < 10 ^ (-d.exponent).toNat := by positivity
  have hvalue : d.value = d.digits * 10 ^ d.exponent.toNat / 10 ^ (-d.exponent).toNat := by
    rw [Decimal.value, mul_div_assoc, zpow_toNat_div (by norm_num)]
  simp only [contains, Bool.and_eq_true, Bool.or_eq_true, decide_eq_true_eq, beq_iff_eq, hvalue,
    div_lt_div_iff₀ hden hten, div_lt_div_iff₀ hten hden, div_eq_div_iff hden.ne' hten.ne',
    div_eq_div_iff hten.ne' hden.ne', Nat.pow_eq]
  norm_cast

theorem contains_exact (hvalue : 0 < b.value) (hlow : b.low < b.value) (hhigh : b.value < b.high)
    {k : ℕ} (hb : b.denominator = 2 ^ k) : b.contains b.exact = true := by
  have hpos : 0 < b.denominator := hb ▸ Nat.two_pow_pos k
  have hden : (0 : ℚ) < b.denominator := Nat.cast_pos.mpr hpos
  have hexact : b.exact.value = b.value / b.denominator := by
    rw [exact, Decimal.value, hb, Nat.log2_two_pow, Nat.pow_eq]
    push_cast
    rw [zpow_neg, zpow_natCast, show (10 : ℚ) = 2 * 5 by norm_num, mul_pow]
    field_simp
  rw [contains_iff hpos, hexact]
  refine ⟨.inl ?_, .inl ?_⟩ <;> exact div_lt_div_of_pos_right (by exact_mod_cast ‹_›) hden

/-- The search never leaves the interval. -/
theorem contains_shortest (h : b.contains b.exact = true) : b.contains b.shortest = true := by
  unfold shortest
  cases hsearch : (List.range 19).findSome? fun i : ℕ => b.onGrid (b.startExponent - i) with
  | none => exact h
  | some d =>
    obtain ⟨i, -, hi⟩ := List.exists_of_findSome?_eq_some hsearch
    exact contains_of_onGrid hi

end Neighbourhood

end WrapGen.Decimal

namespace WrapGen.Binary.Word

open Decimal

variable {f : Format} {x y : Word f}

/-- Where the interval of a word ends, and when its ends belong to it. -/
theorem contains_ofWord {d : Decimal} (hx : x.units ≠ 0)
    (h : (Neighbourhood.ofWord x).contains d = true) :
    x.size - x.stepDown / 4 * x.ulp ≤ d.value ∧ d.value ≤ x.size + x.ulp / 2 ∧
      (d.value = x.size - x.stepDown / 4 * x.ulp ∨ d.value = x.size + x.ulp / 2 →
        x.units % 2 = 0) := by
  have hquarter : (2 : ℚ) ^ (x.unitExponent - 2).toNat / 2 ^ (-(x.unitExponent - 2)).toNat =
      x.ulp / 4 := by
    rw [zpow_toNat_div (by norm_num), zpow_sub₀ (by norm_num), ulp]
    norm_num
  have hlow : ((Neighbourhood.ofWord x).low : ℚ) / (Neighbourhood.ofWord x).denominator =
      x.size - x.stepDown / 4 * x.ulp := by
    show (((4 * x.units - x.stepDown) * 2 ^ (x.unitExponent - 2).toNat : ℕ) : ℚ) /
      ((2 ^ (-(x.unitExponent - 2)).toNat : ℕ) : ℚ) = _
    have := x.stepDown_bounds.2
    push_cast [Nat.cast_sub (show x.stepDown ≤ 4 * x.units by omega)]
    rw [mul_div_assoc, hquarter, size]
    ring
  have hhigh : ((Neighbourhood.ofWord x).high : ℚ) / (Neighbourhood.ofWord x).denominator =
      x.size + x.ulp / 2 := by
    show (((4 * x.units + 2) * 2 ^ (x.unitExponent - 2).toNat : ℕ) : ℚ) /
      ((2 ^ (-(x.unitExponent - 2)).toNat : ℕ) : ℚ) = _
    push_cast
    rw [mul_div_assoc, hquarter, size]
    ring
  have hclosed : (Neighbourhood.ofWord x).closed = true ↔ x.units % 2 = 0 := beq_iff_eq
  rw [Neighbourhood.contains_iff (Nat.two_pow_pos _), hlow, hhigh, hclosed] at h
  obtain ⟨hbelow, habove⟩ := h
  refine ⟨?_, ?_, ?_⟩
  · rcases hbelow with h | ⟨-, h⟩ <;> exact h.le
  · rcases habove with h | ⟨-, h⟩ <;> exact h.le
  · rintro (h | h)
    · exact (hbelow.resolve_left h.le.not_gt).1
    · exact (habove.resolve_left h.ge.not_gt).1

/-- A decimal in the interval of a word is read as that word. -/
theorem nearest_of_contains {d : Decimal} (hfinite : x.isFinite = true) (hx : x.units ≠ 0)
    (h : (Neighbourhood.ofWord x).contains d = true) : Nearest (x.signed d.value) x := by
  obtain ⟨hlow, hhigh, htie⟩ := contains_ofWord hx h
  exact nearest_of_half hfinite hx hlow hhigh htie

theorem contains_shortest_ofWord (hx : x.units ≠ 0) :
    (Neighbourhood.ofWord x).contains (Neighbourhood.ofWord x).shortest = true := by
  have hpos : 0 < 2 ^ (x.unitExponent - 2).toNat := Nat.two_pow_pos _
  have hstep := x.stepDown_bounds
  refine Neighbourhood.contains_shortest (Neighbourhood.contains_exact ?_ ?_ ?_ rfl)
  · exact Nat.mul_pos (by omega) hpos
  · exact Nat.mul_lt_mul_of_pos_right (show 4 * x.units - x.stepDown < 4 * x.units by omega) hpos
  · exact Nat.mul_lt_mul_of_pos_right (by omega) hpos

/-- The decimal that is written for a word is read as that word and as no other. -/
theorem nearest_shortest_iff (hf : 0 < f.fractionBits) (hfinite : x.isFinite = true)
    (hx : x.units ≠ 0) :
    Nearest (x.signed (Neighbourhood.ofWord x).shortest.value) y ↔ y = x := by
  have h := nearest_of_contains hfinite hx (contains_shortest_ofWord hx)
  constructor
  · intro hy
    exact eq_of_value_eq hx (hy.value_eq hf h)
  · rintro rfl
    exact h

end WrapGen.Binary.Word
