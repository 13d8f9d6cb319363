import WrapGen.Binary.Rounding
/-!
# The fewest digits that read back

A finite word stands for the interval of the numbers that round to it: from
halfway to the word below to halfway to the word above, with its ends exactly
when the fraction is even. `Neighbourhood.shortest` takes the decimal grids from
coarse to fine and tries the two grid points next to the value. The first grid
with a point in the interval wins, and on it the nearer point; of two equally
near ones the greater. Everything is exact arithmetic on natural numbers.

Main statement: `Neighbourhood.contains_of_onGrid`, a point that the search
takes reads back.
-/
namespace WrapGen

/-- The number `digits · 10^exponent`. -/
structure Decimal where
  digits : Nat
  exponent : Int
  deriving DecidableEq, Repr

namespace Decimal

open Binary

/-- A positive value and the interval that rounds to it, as numerators over one
denominator. -/
structure Neighbourhood where
  low : Nat
  value : Nat
  high : Nat
  denominator : Nat
  closed : Bool
  deriving Repr

namespace Neighbourhood

/-- The neighbourhood of a finite word other than zero. Below a power of two the
words lie twice as dense. -/
def ofWord {f : Format} (x : Word f) : Neighbourhood :=
  let gap := if x.fractionField = 0 ∧ 1 < x.exponentField then 1 else 2
  let quarter := x.unitExponent - 2
  let scale := Nat.pow 2 quarter.toNat
  ⟨(4 * x.units - gap) * scale, 4 * x.units * scale, (4 * x.units + 2) * scale,
    Nat.pow 2 (-quarter).toNat, x.units % 2 == 0⟩

/-- Whether a decimal lies in the interval. -/
def contains (b : Neighbourhood) (d : Decimal) : Bool :=
  let point := d.digits * Nat.pow 10 d.exponent.toNat * b.denominator
  let ten := Nat.pow 10 (-d.exponent).toNat
  (decide (b.low * ten < point) || (b.closed && b.low * ten == point)) &&
    (decide (point < b.high * ten) || (b.closed && point == b.high * ten))

/-- The grid point of `10^e` that the search takes, if one reads back. -/
def onGrid (b : Neighbourhood) (e : Int) : Option Decimal :=
  let num := b.value * Nat.pow 10 (-e).toNat
  let den := b.denominator * Nat.pow 10 e.toNat
  let below := num / den
  let down : Decimal := ⟨below, e⟩
  let up : Decimal := ⟨below + 1, e⟩
  if b.contains down && (!b.contains up || decide (2 * num < (2 * below + 1) * den)) then some down
  else if b.contains up then some up
  else none

/-- Decimal digits of a natural number; zero has one. -/
def digitCount (n : Nat) : Nat := (Nat.toDigits 10 n).length

/-- An exponent whose power of ten is not below the value and at most ten times
above it. -/
def startExponent (b : Neighbourhood) : Int :=
  if b.denominator ≤ b.value then digitCount (b.value / b.denominator)
  else 1 - (digitCount (b.denominator / b.value) : Int)

/-- The value itself. -/
def exact (b : Neighbourhood) : Decimal :=
  ⟨b.value * Nat.pow 5 b.denominator.log2, -(b.denominator.log2 : Int)⟩

/-- The fewest digits that read back. Seventeen digits are always enough for the
formats in use, so the exact value is never needed. -/
def shortest (b : Neighbourhood) : Decimal :=
  ((List.range 19).findSome? fun (i : Nat) => b.onGrid (b.startExponent - i)).getD b.exact

theorem contains_of_onGrid {b : Neighbourhood} {e : Int} {d : Decimal} (h : b.onGrid e = some d) :
    b.contains d = true := by
  simp only [onGrid] at h
  split at h
  · next hc =>
    rw [Bool.and_eq_true] at hc
    exact Option.some.inj h ▸ hc.1
  · split at h
    · next hc => exact Option.some.inj h ▸ hc
    · simp at h

end Neighbourhood

end Decimal

end WrapGen
