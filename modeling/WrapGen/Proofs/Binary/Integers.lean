import WrapGen.Proofs.Binary.Widening

/-!
# Integers as words

An integer is rounded once, to the word that is nearest to it. What rounding gives
depends on the number alone and not on the unit that it is written with
(`roundMagnitude_mul_pow`), so an integer that the wider format holds gives the same
32-bit word whether it is rounded directly or by way of the wider format. Where the
wider format has to round it first, the two may differ.

* `Word.isZero_ofInt`: only the integer zero becomes a zero, the positive one.
* `Double.narrow_ofInt`: up to `2 ^ 53` the way does not matter.
* `Double.ofInt_injective`: up to `2 ^ 53` no two integers become the same word.
-/
namespace WrapGen.Binary

/-! ## Units -/

theorem roundShift_mul_pow_add (n s k : Nat) :
    roundShift (n * 2 ^ k) (s + k) = roundShift n s := by
  have hpos : 0 < 2 ^ k := Nat.two_pow_pos k
  have hless : ∀ a b : Nat, (a * 2 ^ k < b * 2 ^ k) = (a < b) := fun a b =>
    propext (Nat.mul_lt_mul_right hpos)
  unfold roundShift
  simp only [Nat.pow_eq, Nat.pow_add, Nat.mul_div_mul_right _ _ hpos, Nat.mul_mod_mul_right,
    ← Nat.mul_assoc, hless]

/-- A number written with a smaller unit is rounded to the same word. -/
theorem Format.roundMagnitude_mul_pow (f : Format) {m : Nat} (hm : m ≠ 0) (q : Int) (k : Nat) :
    f.roundMagnitude (m * 2 ^ k) (q - k) = f.roundMagnitude m q := by
  have hne : m * 2 ^ k ≠ 0 := Nat.mul_ne_zero hm (Nat.ne_of_gt (Nat.two_pow_pos k))
  have hunit : max (q - k + ((m * 2 ^ k).log2 : Int) - f.fractionBits) f.leastExponent =
      max (q + (m.log2 : Int) - f.fractionBits) f.leastExponent := by
    rw [log2_mul_pow hm]
    push_cast
    omega
  unfold Format.roundMagnitude
  simp only [if_neg hne, if_neg hm, hunit, Nat.pow_eq]
  generalize max (q + (m.log2 : Int) - f.fractionBits) f.leastExponent = unit
  have hdigits : (if unit ≤ q - k then m * 2 ^ k * 2 ^ (q - k - unit).toNat
      else roundShift (m * 2 ^ k) (unit - (q - k)).toNat) =
      if unit ≤ q then m * 2 ^ (q - unit).toNat else roundShift m (unit - q).toNat := by
    by_cases hlow : unit ≤ q - k
    · rw [if_pos hlow, if_pos (by omega), Nat.mul_assoc, ← Nat.pow_add]
      rw [show k + (q - k - unit).toNat = (q - unit).toNat by omega]
    · rw [if_neg hlow]
      by_cases hmid : unit ≤ q
      · -- The unit of the word lies between the two units that the number is written with.
        obtain ⟨s, hs⟩ : ∃ s : Nat, (s : Int) = unit - (q - k) :=
          ⟨_, Int.toNat_of_nonneg (by omega)⟩
        have hk : k = (q - unit).toNat + s := by omega
        rw [if_pos hmid, ← hs, Int.toNat_natCast, hk, Nat.pow_add, ← Nat.mul_assoc,
          roundShift_mul_pow]
      · rw [if_neg hmid, show (unit - (q - k)).toNat = (unit - q).toNat + k by omega,
          roundShift_mul_pow_add]
  rw [hdigits]

/-! ## Zero -/

/-- An integer that is not zero is not rounded to zero. -/
theorem Format.roundMagnitude_ne_zero {f : Format} (hleast : f.leastExponent ≤ 0)
    (hinfinity : f.infinity ≠ 0) {m : Nat} (hm : m ≠ 0) : f.roundMagnitude m 0 ≠ 0 := by
  have hpos := f.leadingBit_pos
  unfold Format.roundMagnitude
  simp only [if_neg hm, Nat.pow_eq]
  generalize hunit : max (0 + (m.log2 : Int) - f.fractionBits) f.leastExponent = unit
  by_cases hleast' : unit = f.leastExponent
  · have hdigits : 0 < m * 2 ^ (0 - unit).toNat :=
      Nat.mul_pos (Nat.pos_of_ne_zero hm) (Nat.two_pow_pos _)
    rw [if_pos (by omega)]
    omega
  · have hplace : 0 < (unit - f.leastExponent).toNat * f.leadingBit :=
      Nat.mul_pos (by omega) hpos
    omega

theorem Format.roundMagnitude_le (f : Format) (m : Nat) (q : Int) :
    f.roundMagnitude m q ≤ f.infinity := by
  unfold Format.roundMagnitude
  split
  · exact Nat.zero_le _
  · exact Nat.min_le_right _ _

theorem Word.magnitude_ofInt {f : Format} (n : Int) :
    (Word.ofInt n : Word f).magnitude = f.roundMagnitude n.natAbs 0 :=
  magnitude_ofParts (Nat.lt_of_le_of_lt (f.roundMagnitude_le _ _) f.infinity_lt_signBit)

/-- Only the integer zero becomes a zero. -/
theorem Word.isZero_ofInt {n : Int} : (Word.ofInt n : Double).isZero = true ↔ n = 0 := by
  rw [isZero, beq_iff_eq, magnitude_ofInt]
  constructor
  · intro h
    by_cases hn : n = 0
    · exact hn
    · exact absurd h (Format.roundMagnitude_ne_zero (by decide) (by decide)
        (Int.natAbs_ne_zero.mpr hn))
  · rintro rfl
    rfl

theorem Word.isNegative_ofInt {f : Format} (n : Int) :
    (Word.ofInt n : Word f).isNegative = decide (n < 0) :=
  isNegative_ofParts (Nat.lt_of_le_of_lt (f.roundMagnitude_le _ _) f.infinity_lt_signBit)

/-! ## By way of the wider format -/

/-- An integer up to `2 ^ 53` in magnitude is a number of at most 53 digits, or twice one. -/
theorem exists_digits {m : Nat} (hm : m ≠ 0) (h : m ≤ 2 ^ 53) :
    ∃ d j : Nat, d ≠ 0 ∧ d.log2 ≤ 52 ∧ j ≤ 1 ∧ m = d * 2 ^ j := by
  rcases Nat.lt_or_eq_of_le h with hlt | rfl
  · exact ⟨m, 0, hm, Nat.lt_succ_iff.mp ((Nat.log2_lt hm).mpr hlt), Nat.zero_le _, by simp⟩
  · exact ⟨2 ^ 52, 1, by decide, by decide, Nat.le_refl _, by decide⟩

/-- The wider format holds an integer up to `2 ^ 53`, written with a smaller unit. -/
theorem Double.units_ofInt {n : Int} (hn : n ≠ 0) (h : n.natAbs ≤ 2 ^ 53) : ∃ d j k : Nat,
    d ≠ 0 ∧ n.natAbs = d * 2 ^ j ∧ (Word.ofInt n : Double).magnitude < Format.binary64.infinity ∧
      (Word.ofInt n : Double).units = d * 2 ^ k ∧
      (Word.ofInt n : Double).unitExponent = j - k := by
  obtain ⟨d, j, hd, hlog, hj, hm⟩ := exists_digits (Int.natAbs_ne_zero.mpr hn) h
  have hleast : Format.binary64.leastExponent = -1074 := rfl
  have hbits : Format.binary64.fractionBits = 52 := rfl
  have hinfinity : Format.binary64.infinity = 2047 * Format.binary64.leadingBit := rfl
  obtain ⟨e, he⟩ : ∃ e : Nat, e = j + d.log2 + 1022 := ⟨_, rfl⟩
  have hunit : Format.binary64.leastExponent + (e : Int) =
      j - ((Format.binary64.fractionBits - d.log2 : Nat) : Int) := by omega
  obtain ⟨hround, hlow, hhigh⟩ := Format.binary64.roundMagnitude_of_room hd
    (show d.log2 ≤ Format.binary64.fractionBits by omega)
    (show (j : Int) + (d.log2 : Int) - Format.binary64.fractionBits =
      Format.binary64.leastExponent + e by omega)
    (by rw [hinfinity]; exact Nat.mul_le_mul_right _ (by omega))
  have hscaled := Format.binary64.roundMagnitude_mul_pow hd j j
  rw [Int.sub_self, hround, ← hm] at hscaled
  have hfits : e * Format.binary64.leadingBit + d * 2 ^ (Format.binary64.fractionBits - d.log2) <
      Format.binary64.infinity := by
    have : (e + 2) * Format.binary64.leadingBit ≤ 2047 * Format.binary64.leadingBit :=
      Nat.mul_le_mul_right _ (by omega)
    rw [Nat.add_mul] at this
    omega
  have hsign := Nat.lt_trans hfits Format.binary64.infinity_lt_signBit
  obtain ⟨hunits, hexact⟩ := Word.units_ofParts (decide (n < 0)) hlow hhigh hsign
  refine ⟨d, j, Format.binary64.fractionBits - d.log2, hd, hm, ?_⟩
  rw [Word.ofInt, hscaled]
  refine ⟨?_, hunits, hexact.trans hunit⟩
  rw [Word.magnitude_ofParts hsign]
  exact hfits

/-- An integer up to `2 ^ 53` becomes the same 32-bit word directly and by way of the
wider format. -/
theorem Double.narrow_ofInt {n : Int} (h : n.natAbs ≤ 2 ^ 53) :
    Double.narrow (Word.ofInt n) = Word.ofInt n := by
  by_cases hn : n = 0
  · subst hn
    rw [narrow_of_isZero (Word.isZero_ofInt.mpr rfl), Word.isNegative_ofInt]
    rfl
  · obtain ⟨d, j, k, hd, hm, hfinite, hunits, hexponent⟩ := units_ofInt hn h
    have hdirect := Format.binary32.roundMagnitude_mul_pow hd j j
    rw [Int.sub_self, ← hm] at hdirect
    rw [Double.narrow_of_finite hfinite, Word.isNegative_ofInt, hunits, hexponent,
      Format.binary32.roundMagnitude_mul_pow hd, ← hdirect]
    rfl

/-! ## Integers that stay apart -/

/-- Two integers up to `2 ^ 53` that become the same word are one. -/
theorem Double.ofInt_injective {m n : Int} (hm : m.natAbs ≤ 2 ^ 53) (hn : n.natAbs ≤ 2 ^ 53)
    (h : (Word.ofInt m : Double) = Word.ofInt n) : m = n := by
  by_cases hzero : m = 0
  · subst hzero
    have hz : (Word.ofInt n : Double).isZero = true := h ▸ Word.isZero_ofInt.mpr rfl
    exact (Word.isZero_ofInt.mp hz).symm
  · have hzero' : n ≠ 0 := by
      rintro rfl
      exact hzero (Word.isZero_ofInt.mp (h ▸ Word.isZero_ofInt.mpr rfl))
    obtain ⟨d, j, k, -, hmd, -, hunits, hexponent⟩ := units_ofInt hzero hm
    obtain ⟨d', j', k', -, hnd, -, hunits', hexponent'⟩ := units_ofInt hzero' hn
    rw [h, hunits'] at hunits
    rw [h, hexponent'] at hexponent
    have hplaces : j + k' = j' + k := by omega
    have hnatAbs : m.natAbs = n.natAbs := by
      refine Nat.eq_of_mul_eq_mul_right (Nat.two_pow_pos k') ?_
      calc m.natAbs * 2 ^ k' = d * 2 ^ (j' + k) := by
            rw [hmd, Nat.mul_assoc, ← Nat.pow_add, hplaces]
        _ = d * 2 ^ k * 2 ^ j' := by rw [Nat.add_comm, Nat.pow_add, Nat.mul_assoc]
        _ = d' * 2 ^ j' * 2 ^ k' := by rw [← hunits, Nat.mul_right_comm]
        _ = n.natAbs * 2 ^ k' := by rw [hnd]
    have hsign : decide (m < 0) = decide (n < 0) := by
      rw [← Word.isNegative_ofInt (f := .binary64) m, h, Word.isNegative_ofInt]
    rw [decide_eq_decide] at hsign
    omega

end WrapGen.Binary
