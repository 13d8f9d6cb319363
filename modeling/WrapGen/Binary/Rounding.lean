import WrapGen.Binary.Word
/-!
# Rounding to a word

A finite word is a sign and a natural number of units, `m · 2^q`. Rounding
takes such a value to the nearest word of a format, of two equally near ones
to that with the even fraction, and past the greatest finite word to the
infinity. Integers and words of another format are rounded once, directly.
-/
namespace WrapGen.Binary

/-- `n / 2^s` rounded to the nearest natural number, a half to the even one. -/
def roundShift (n s : Nat) : Nat :=
  let unit := Nat.pow 2 s
  let whole := n / unit
  let rest := n % unit
  if 2 * rest < unit then whole
  else if unit < 2 * rest then whole + 1
  else whole + whole % 2

/-- The magnitude of the word nearest to `m · 2^q`. The unit of the result is
the least that leaves no more digits than the format holds; a carry out of the
fraction moves into the exponent by itself. -/
def Format.roundMagnitude (f : Format) (m : Nat) (q : Int) : Nat :=
  if m = 0 then 0 else
    let unit := max (q + (m.log2 : Int) - f.fractionBits) f.leastExponent
    let digits := if unit ≤ q then m * Nat.pow 2 (q - unit).toNat else roundShift m (unit - q).toNat
    min ((unit - f.leastExponent).toNat * f.leadingBit + digits) f.infinity

namespace Word

variable {f : Format}

/-- The biased exponent. -/
def exponentField (x : Word f) : Nat := x.magnitude / f.leadingBit

/-- The fraction. -/
def fractionField (x : Word f) : Nat := x.magnitude % f.leadingBit

/-- The number of units of a finite word. -/
def units (x : Word f) : Nat :=
  if x.exponentField = 0 then x.fractionField else f.leadingBit + x.fractionField

/-- The exponent of the unit of a finite word. -/
def unitExponent (x : Word f) : Int :=
  f.leastExponent + ((x.exponentField - 1 : Nat) : Int)

/-- The word nearest to an integer. -/
def ofInt (n : Int) : Word f := ofParts (n < 0) (f.roundMagnitude n.natAbs 0)

end Word

/-- A word in the 32-bit format, rounded to the nearest; every NaN becomes the
quiet NaN. -/
def Double.narrow (x : Double) : Single :=
  if x.isNaN then Word.quietNaN
  else if x.isInfinite then Word.ofParts x.isNegative Format.binary32.infinity
  else Word.ofParts x.isNegative (Format.binary32.roundMagnitude x.units x.unitExponent)

/-- A word in the 64-bit format; every number is kept, and a NaN keeps its sign
and payload and becomes quiet. -/
def Single.widen (x : Single) : Double :=
  if x.isNaN then
    Word.ofParts x.isNegative
      (Format.binary64.infinity + Nat.pow 2 51 + x.fractionField % Nat.pow 2 22 * Nat.pow 2 29)
  else if x.isInfinite then Word.ofParts x.isNegative Format.binary64.infinity
  else Word.ofParts x.isNegative (Format.binary64.roundMagnitude x.units x.unitExponent)

end WrapGen.Binary
