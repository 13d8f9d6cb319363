import WrapGen.Proofs.Binary.Widening
import WrapGen.Proofs.Value.Ordered

/-!
# The order that containers rest on

Any two data can be compared, of whatever kinds and however nested, and only a datum and
itself compare as equal. So a container that is in this order holds a key once, and what it
holds does not depend on how the items came in.

Floats are ordered by their bits. Read as signed numbers, the bits of the positive words are
in order already; those of the negative words are in reverse, and are flipped below the sign.

* `Binary.Word.compare_eq`: words compare as their flipped bits do, as signed numbers.
* `Datum.compare_total`: the comparison is a total order on all data, and containers hold
  every key once, whatever the order of insertion.
-/
namespace WrapGen

open Binary

/-! ## Words -/

namespace Binary.Word

variable {f : Format}

/-- The bits of a word, flipped below the sign if it is set: the sign bit is copied into
all the others by a shift that keeps it. -/
def flipped (x : Word f) : BitVec f.width :=
  x.bits ^^^ (x.bits.sshiftRight f.magnitudeBits >>> 1)

/-- The sign bit, copied into all bits below it. -/
theorem toNat_signMask {n : Nat} (b : BitVec (n + 1)) :
    (b.sshiftRight n >>> 1).toNat = if 2 ^ n ≤ b.toNat then 2 ^ n - 1 else 0 := by
  have hlt : b.toNat < 2 ^ n * 2 := b.isLt
  have hmsb : b.msb = decide (2 ^ n ≤ b.toNat) := b.msb_eq_decide
  split
  · rename_i hn
    have hzero : ~~~b >>> n = 0#(n + 1) := by
      apply BitVec.eq_of_toNat_eq
      rw [BitVec.toNat_ushiftRight, BitVec.toNat_not, Nat.shiftRight_eq_div_pow, Nat.pow_succ]
      exact Nat.div_eq_of_lt (by omega)
    rw [BitVec.sshiftRight_eq_of_msb_true (by rw [hmsb, decide_eq_true hn]), hzero,
      BitVec.not_zero, BitVec.toNat_ushiftRight, BitVec.toNat_allOnes, Nat.shiftRight_one,
      Nat.pow_succ]
    omega
  · rename_i hn
    have hzero : b >>> n = 0#(n + 1) := by
      apply BitVec.eq_of_toNat_eq
      rw [BitVec.toNat_ushiftRight, Nat.shiftRight_eq_div_pow]
      exact Nat.div_eq_of_lt (Nat.lt_of_not_le hn)
    rw [BitVec.sshiftRight_eq_of_msb_false (by rw [hmsb, decide_eq_false hn]), hzero,
      BitVec.zero_ushiftRight]
    rfl

/-- What stands below a leading one, flipped. -/
theorem xor_signMask {m n : Nat} (h : m < 2 ^ n) :
    (2 ^ n + m) ^^^ (2 ^ n - 1) = 2 ^ n + (2 ^ n - (m + 1)) := by
  apply Nat.eq_of_testBit_eq
  intro i
  rw [Nat.testBit_xor, Nat.testBit_two_pow_sub_one]
  rcases Nat.lt_trichotomy i n with hi | rfl | hi
  · rw [Nat.testBit_two_pow_add_gt hi, Nat.testBit_two_pow_add_gt hi,
      Nat.testBit_two_pow_sub_succ h, decide_eq_true hi, Bool.true_and, Bool.xor_true]
  · rw [Nat.testBit_two_pow_add_eq, Nat.testBit_two_pow_add_eq, Nat.testBit_two_pow_sub_succ h,
      Nat.testBit_lt_two_pow h]
    simp
  · have hpow : 2 ^ n * 2 ≤ 2 ^ i := Nat.pow_succ 2 n ▸ Nat.pow_le_pow_right (by decide) hi
    rw [Nat.testBit_lt_two_pow (by omega), Nat.testBit_lt_two_pow (by omega),
      decide_eq_false (by omega), Bool.xor_false]

/-- The place of a word in the order is its flipped bits, read as a signed number. -/
theorem orderKey_eq_toInt (x : Word f) : x.orderKey = x.flipped.toInt := by
  have hbits := x.toNat_bits
  have hlt := x.magnitude_lt
  have hmask : (x.bits.sshiftRight f.magnitudeBits >>> 1).toNat =
      if f.signBit ≤ x.bits.toNat then f.signBit - 1 else 0 := toNat_signMask x.bits
  have hwidth : 2 ^ f.width = f.signBit * 2 := Nat.pow_succ 2 f.magnitudeBits
  rw [BitVec.toInt_eq_toNat_cond, flipped, BitVec.toNat_xor, hmask, hwidth, orderKey]
  cases hx : x.isNegative with
  | false =>
    simp only [hx, Bool.false_eq_true, if_false, Nat.zero_add] at hbits ⊢
    have hclear : ¬ f.signBit ≤ x.bits.toNat := by omega
    rw [if_neg hclear, Nat.xor_zero, hbits, if_pos (by omega)]
  | true =>
    simp only [hx, if_true] at hbits ⊢
    have hset : f.signBit ≤ x.bits.toNat := by omega
    have hflip : x.bits.toNat ^^^ (f.signBit - 1) =
        f.signBit + (f.signBit - (x.magnitude + 1)) := by
      rw [hbits]
      exact xor_signMask hlt
    rw [if_pos hset, hflip, if_neg (by omega)]
    omega

/-- Words compare as their flipped bits do, read as signed numbers. -/
theorem compare_eq (x y : Word f) :
    x.compare y = Ord.compare x.flipped.toInt y.flipped.toInt := by
  rw [compare, orderKey_eq_toInt, orderKey_eq_toInt]

theorem compare_eq_iff_bits {x y : Word f} : x.compare y = .eq ↔ x.bits = y.bits := by
  rw [compare_eq_iff, Word.mk.injEq]

end Binary.Word

/-! ## Data -/

namespace Datum

open Ordered

/-- Data of all kinds are totally ordered: the comparison turns round with its sides, finds
only equal data equal, and is transitive. Floats of either width are told apart by their
bits. A list that is put in order holds each of its keys once; the keys that it holds do not
depend on the order of the items, and the items only on which one with a key comes last. -/
theorem compare_total :
    (∀ a b : Datum, b.compare a = (a.compare b).swap) ∧
    (∀ a b : Datum, a.compare b = .eq ↔ a = b) ∧
    (∀ a b c : Datum, a.compare b = .lt → b.compare c = .lt → a.compare c = .lt) ∧
    (∀ x y : Double,
      (float64 x).compare (float64 y) = Ord.compare x.flipped.toInt y.flipped.toInt ∧
      ((float64 x).compare (float64 y) = .eq ↔ x.bits = y.bits)) ∧
    (∀ x y : Single,
      (float32 x).compare (float32 y) = Ord.compare x.flipped.toInt y.flipped.toInt ∧
      ((float32 x).compare (float32 y) = .eq ↔ x.bits = y.bits)) ∧
    ∀ {α : Type} (key : α → Datum) (xs ys : List α),
      ((ofList key xs).map key).Nodup ∧
      (∀ k, k ∈ (ofList key xs).map key ↔ k ∈ xs.map key) ∧
      (xs.Perm ys → (ofList key xs).map key = (ofList key ys).map key) ∧
      (ofList key xs = ofList key ys ↔
        ∀ k, find? key k xs.reverse = find? key k ys.reverse) := by
  refine ⟨fun a b => (compare_swap a b).symm, fun a b => compare_eq_iff_eq,
    fun a b c => lt_trans (a := a), fun x y => ⟨x.compare_eq y, Word.compare_eq_iff_bits⟩,
    fun x y => ⟨x.compare_eq y, Word.compare_eq_iff_bits⟩, fun key xs ys => ?_⟩
  exact ⟨(sorted_ofList xs).nodup, fun k => mem_ofList_keys, map_ofList_perm, ofList_eq_iff⟩

/-- Lists of floats and texts, compared and as the keys of a map. -/
theorem compare_total_lists :
    let a : Datum := .vector [.float64 ⟨0xfff8000000000000⟩]
    let b : Datum := .vector [.float64 ⟨0x8000000000000000⟩, .set []]
    let c : Datum := .vector [.float64 ⟨0⟩]
    let entries := [(b, c), (a, c), (b, a)]
    let others := [(b, a), (b, c), (a, c)]
    a.compare b = .lt ∧ b.compare c = .lt ∧ a.compare c = .lt ∧ entries.Perm others ∧
      (ofList Prod.fst entries).map Prod.fst = (ofList Prod.fst others).map Prod.fst ∧
      ofList Prod.fst entries ≠ ofList Prod.fst others := by
  intro a b c entries others
  obtain ⟨-, -, htrans, -, -, hlists⟩ := compare_total
  obtain ⟨-, -, hkeys, heq⟩ := hlists Prod.fst entries others
  have hab : a.compare b = .lt := by decide +kernel
  have hbc : b.compare c = .lt := by decide +kernel
  have hperm : entries.Perm others := by decide +kernel
  refine ⟨hab, hbc, htrans a b c hab hbc, hperm, hkeys hperm, fun h => ?_⟩
  have hlast : find? Prod.fst b entries.reverse ≠ find? Prod.fst b others.reverse := by
    decide +kernel
  exact hlast (heq.mp h b)

/-- A float that is no number equals itself, and the zeros are two values. -/
example : (float64 Word.quietNaN).compare (float64 Word.quietNaN) = .eq ∧
    (float64 Word.zero).compare (float64 (Word.ofParts true 0)) = .gt := by decide +kernel

end Datum

end WrapGen
