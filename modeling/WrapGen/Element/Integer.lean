/-!
# Integer ranges

The four integer primitives hold the integers between two bounds. `Ranged` is
the type of the integers in range, so that a stored integer always fits.
-/
namespace WrapGen

/-- The widths and signs of stored integers. -/
inductive IntegerKind where
  | int32
  | uint32
  | int64
  | uint64
  deriving DecidableEq, Repr

namespace IntegerKind

/-- Every kind, in catalog order. -/
def all : List IntegerKind := [int32, uint32, int64, uint64]

/-- The least integer that fits. -/
def least : IntegerKind → Int
  | int32 => -2147483648
  | uint32 => 0
  | int64 => -9223372036854775808
  | uint64 => 0

/-- The greatest integer that fits. -/
def greatest : IntegerKind → Int
  | int32 => 2147483647
  | uint32 => 4294967295
  | int64 => 9223372036854775807
  | uint64 => 18446744073709551615

/-- The place of a kind among the kinds of stored values. -/
def rank : IntegerKind → Nat
  | int32 => 1
  | uint32 => 2
  | int64 => 3
  | uint64 => 4

/-- An integer that fits. -/
abbrev Ranged (k : IntegerKind) : Type := { n : Int // k.least ≤ n ∧ n ≤ k.greatest }

/-- The integer as one that fits, if it does. -/
def ofInt? (k : IntegerKind) (n : Int) : Option k.Ranged :=
  if h : k.least ≤ n ∧ n ≤ k.greatest then some ⟨n, h⟩ else none

theorem val_of_ofInt? {k : IntegerKind} {n : Int} {r : k.Ranged} (h : k.ofInt? n = some r) :
    r.val = n := by
  simp only [ofInt?] at h
  split at h
  · exact congrArg Subtype.val (Option.some.inj h).symm
  · simp at h

theorem ofInt?_val {k : IntegerKind} (r : k.Ranged) : k.ofInt? r.val = some r := by
  simp [ofInt?, r.property]

end IntegerKind

end WrapGen
