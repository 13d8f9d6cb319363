/-!
# Binary floating-point words

A word of a binary interchange format is its bits: a sign bit, the biased
exponent, and the fraction. `Double` and `Single` are the two widths in use.

Two comparisons are kept apart. `Word.same` is the numeric one: a NaN equals
nothing and the two zeros are equal. `Word.compare` is the total order of the
bit patterns, from the negative NaNs to the positive ones; `Word.compare_eq_iff`
states that it identifies no two words.
-/
namespace WrapGen.Binary

/-- The widths of the fields of an interchange format. -/
structure Format where
  fractionBits : Nat
  exponentBits : Nat
  deriving DecidableEq, Repr

namespace Format

/-- The 64-bit format. -/
def binary64 : Format := ⟨52, 11⟩

/-- The 32-bit format. -/
def binary32 : Format := ⟨23, 8⟩

/-- Bits of a word without its sign. -/
def magnitudeBits (f : Format) : Nat := f.exponentBits + f.fractionBits

/-- Bits of a word. -/
def width (f : Format) : Nat := f.magnitudeBits + 1

/-- The weight of the sign bit. -/
def signBit (f : Format) : Nat := Nat.pow 2 f.magnitudeBits

/-- The weight of the digit in front of the fraction, which the bits leave out. -/
def leadingBit (f : Format) : Nat := Nat.pow 2 f.fractionBits

/-- The magnitude of the infinities; greater magnitudes are NaNs. -/
def infinity (f : Format) : Nat := (Nat.pow 2 f.exponentBits - 1) * f.leadingBit

/-- The exponent of the unit in the last place of the least numbers. -/
def leastExponent (f : Format) : Int :=
  2 - (Nat.pow 2 (f.exponentBits - 1) : Nat) - (f.fractionBits : Int)

end Format

/-- A word of the format `f`. -/
structure Word (f : Format) where
  bits : BitVec f.width
  deriving DecidableEq, Repr

/-- A 64-bit word. -/
abbrev Double := Word .binary64

/-- A 32-bit word. -/
abbrev Single := Word .binary32

namespace Word

variable {f : Format}

/-- Whether the sign bit is set. -/
def isNegative (x : Word f) : Bool := f.signBit ≤ x.bits.toNat

/-- The exponent and fraction fields as one number. -/
def magnitude (x : Word f) : Nat := x.bits.toNat % f.signBit

/-- The word with the given sign and magnitude. -/
def ofParts (negative : Bool) (magnitude : Nat) : Word f :=
  ⟨BitVec.ofNat f.width ((if negative then f.signBit else 0) + magnitude)⟩

/-- The word with the given bits. -/
def ofBits (bits : Nat) : Word f := ⟨BitVec.ofNat f.width bits⟩

/-- Whether a word is no number. -/
def isNaN (x : Word f) : Bool := f.infinity < x.magnitude

/-- Whether a word is an infinity. -/
def isInfinite (x : Word f) : Bool := x.magnitude == f.infinity

/-- Whether a word is one of the two zeros. -/
def isZero (x : Word f) : Bool := x.magnitude == 0

/-- The word with its sign bit cleared. -/
def abs (x : Word f) : Word f := ofParts false x.magnitude

/-- The positive zero. -/
def zero : Word f := ofParts false 0

/-- The quiet NaN without sign and payload. -/
def quietNaN : Word f := ofParts false (f.infinity + Nat.pow 2 (f.fractionBits - 1))

/-- Numeric equality. -/
def same (x y : Word f) : Bool :=
  !x.isNaN && !y.isNaN && (x.bits == y.bits || (x.isZero && y.isZero))

/-- The place of a word in the total order: negative words lie below, the
greater the magnitude the lower. -/
def orderKey (x : Word f) : Int :=
  if x.isNegative then -(x.magnitude : Int) - 1 else x.magnitude

/-- The total order of the bit patterns. -/
def compare (x y : Word f) : Ordering := Ord.compare x.orderKey y.orderKey

/-! ## The order identifies no two words -/

theorem toNat_bits (x : Word f) :
    x.bits.toNat = (if x.isNegative then f.signBit else 0) + x.magnitude := by
  have hb : x.bits.toNat < f.signBit * 2 := x.bits.isLt
  simp only [isNegative, magnitude, decide_eq_true_eq]
  split
  · next h =>
    rw [Nat.mod_eq_sub_mod h, Nat.mod_eq_of_lt (by omega)]
    omega
  · next h => rw [Nat.mod_eq_of_lt (by omega), Nat.zero_add]

theorem orderKey_inj {x y : Word f} (h : x.orderKey = y.orderKey) : x = y := by
  have hb : x.bits.toNat = y.bits.toNat := by
    rw [toNat_bits x, toNat_bits y]
    simp only [orderKey] at h
    cases hx : x.isNegative <;> cases hy : y.isNegative <;> simp [hx, hy] at h ⊢ <;> omega
  cases x
  cases y
  exact congrArg Word.mk (BitVec.eq_of_toNat_eq hb)

theorem compare_eq_iff {x y : Word f} : x.compare y = .eq ↔ x = y := by
  constructor
  · intro h
    exact orderKey_inj (Std.LawfulEqOrd.eq_of_compare h)
  · rintro rfl
    exact Std.ReflOrd.compare_self

end Word

/-- The word that a float is. -/
def Double.ofFloat (x : Float) : Double := Word.ofBits x.toBits.toNat

end WrapGen.Binary
