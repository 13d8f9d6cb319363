import WrapGen.Decimal.Shortest
/-!
# Writing a float

A word is written with the fewest digits that read back: positionally, with at
least one digit after the point, while the exponent of the leading digit lies
in the range of the layout, and otherwise as one digit, the others after a
point, and a bare exponent. The texts of NaN and the infinities are part of the
layout too.
-/
namespace WrapGen

open Binary

namespace Decimal

/-- How floats are written. -/
structure Layout where
  /-- The least exponent of the leading digit that is written positionally. -/
  plainFrom : Int
  /-- The least exponent above it that is not. -/
  plainBelow : Int
  nan : String
  infinity : String
  deriving Repr

/-- Floats are positional from `0.0001` up to, but not including, `1e16`. -/
def Layout.standard : Layout := ⟨-4, 16, "NaN", "inf"⟩

/-- The digits of a natural number, leading digit first. -/
def digitsOf (n : Nat) : List Char := Nat.toDigits 10 n

/-- Positional digits, the point `point` places after the first one. -/
def positional (digits : List Char) (point : Int) : List Char :=
  if point ≤ 0 then '0' :: '.' :: (List.replicate (-point).toNat '0' ++ digits)
  else if (digits.length : Int) ≤ point then
    digits ++ List.replicate (point.toNat - digits.length) '0' ++ ['.', '0']
  else digits.take point.toNat ++ '.' :: digits.drop point.toNat

/-- One digit, the others after a point, and the exponent of the leading digit. -/
def scientific (digits : List Char) (exponent : Int) : List Char :=
  let mantissa := match digits with
    | d :: e :: rest => d :: '.' :: e :: rest
    | short => short
  mantissa ++ 'e' :: (toString exponent).toList

/-- The text of a positive decimal. -/
def write (l : Layout) (d : Decimal) : List Char :=
  let digits := digitsOf d.digits
  let exponent := (digits.length : Int) + d.exponent - 1
  if l.plainFrom ≤ exponent ∧ exponent < l.plainBelow then positional digits (exponent + 1)
  else scientific digits exponent

/-- The text of the magnitude of a finite word. -/
def writeMagnitude (l : Layout) {f : Format} (x : Word f) : List Char :=
  if x.isZero then ['0', '.', '0']
  else write l (Neighbourhood.ofWord x).shortest

/-- The text of a word. -/
def Layout.text (l : Layout) {f : Format} (x : Word f) : String :=
  if x.isNaN then l.nan
  else
    let sign := if x.isNegative then "-" else ""
    if x.isInfinite then sign ++ l.infinity
    else sign ++ String.ofList (writeMagnitude l x)

end Decimal

end WrapGen
