import WrapGen.Proofs.Binary.Integers
import WrapGen.Proofs.Value.Lookup

/-!
# Keys that are equal to the host

The host compares numbers by their value, storage by their bits. Two keys that are
equal to the host have the same storage form unless they are zeros of opposite
signs, or an integer and a float that differ in the 32-bit format because the integer
is rounded to it once and the float twice (`HostValue.parted`). The latter takes an
integer that the 64-bit format has to round.

* `ElementType.toDatum_eq_iff`: the two are all that parts equal keys.
* `HostValue.parted_cases`: an integer that is rounded apart is greater than `2 ^ 53`.
-/
namespace WrapGen

open Binary Catalog

/-! ## Numeric equality -/

namespace Binary.Word

variable {f : Format} {x y : Word f}

/-- Words that are equal as numbers are the same, or both are zeros. -/
theorem eq_or_isZero_of_same (h : x.same y = true) :
    x = y ∨ x.isZero = true ∧ y.isZero = true := by
  simp only [same, Bool.and_eq_true, Bool.or_eq_true, beq_iff_eq] at h
  refine h.2.imp_left fun hbits => ?_
  cases x
  cases y
  exact congrArg Word.mk hbits

/-- Two zeros are the same if their signs are. -/
theorem eq_of_isZero (hx : x.isZero = true) (hy : y.isZero = true)
    (hsign : x.isNegative = y.isNegative) : x = y := by
  have hmagnitude : x.magnitude = y.magnitude :=
    (beq_iff_eq.mp hx).trans (beq_iff_eq.mp hy).symm
  rw [← x.ofParts_self, ← y.ofParts_self, hsign, hmagnitude]

end Binary.Word

namespace HostValue

/-- The sign of a number that is zero. -/
def zeroSign? : HostValue → Option Bool
  | .int n => if n = 0 then some false else .none
  | .float x => if x.isZero then some x.isNegative else .none
  | _ => .none

/-- Whether two values are zeros of opposite signs; the integer zero is positive. -/
def oppositeZeros (a b : HostValue) : Bool :=
  match a.zeroSign?, b.zeroSign? with
  | some s, some t => s != t
  | _, _ => false

/-- Whether an integer and a float become distinct words of the 32-bit format. -/
def roundedApart : HostValue → HostValue → Bool
  | .int n, .float x | .float x, .int n => (Word.ofInt n : Single) != Double.narrow x
  | _, _ => false

/-- Whether the storage forms of two equal keys of a type differ. -/
def parted : ElementType → HostValue → HostValue → Bool
  | .primitive .float64, a, b => oppositeZeros a b
  | .primitive .float32, a, b => oppositeZeros a b || roundedApart a b
  | _, _, _ => false

/-- A number as a 64-bit word, integers rounded to it. -/
def double? : HostValue → Option Double
  | .int n => some (Word.ofInt n)
  | .float x => some x
  | _ => .none

theorem zeroSign?_eq {a : HostValue} {x : Double} (h : a.double? = some x) :
    a.zeroSign? = if x.isZero then some x.isNegative else .none := by
  cases a with
  | int n =>
    obtain rfl := Option.some.inj h
    rw [zeroSign?]
    by_cases hn : n = 0
    · rw [if_pos hn, if_pos (Word.isZero_ofInt.mpr hn), Word.isNegative_ofInt, hn]
      rfl
    · rw [if_neg hn, if_neg fun hz => hn (Word.isZero_ofInt.mp hz)]
  | float y =>
    obtain rfl := Option.some.inj h
    rfl
  | _ => cases h

/-- Equal numbers are the same 64-bit word, or both are zeros. -/
theorem double_of_same {a b : HostValue} (h : a.same b = true) {x y : Double}
    (hx : a.double? = some x) (hy : b.double? = some y) :
    x = y ∨ x.isZero = true ∧ y.isZero = true := by
  cases a with
  | int m =>
    obtain rfl := Option.some.inj hx
    cases b with
    | int n =>
      obtain rfl := Option.some.inj hy
      have hmn : m = n := beq_iff_eq.mp h
      exact Or.inl (by rw [hmn])
    | float y' =>
      obtain rfl := Option.some.inj hy
      exact Word.eq_or_isZero_of_same h
    | _ => cases hy
  | float x' =>
    obtain rfl := Option.some.inj hx
    cases b with
    | int n =>
      obtain rfl := Option.some.inj hy
      exact (Word.eq_or_isZero_of_same h).imp Eq.symm And.symm
    | float y' =>
      obtain rfl := Option.some.inj hy
      exact Word.eq_or_isZero_of_same h
    | _ => cases hy
  | _ => cases hx

/-- Equal numbers are the same 64-bit word if they are not zeros of opposite signs. -/
theorem double_eq_iff {a b : HostValue} (h : a.same b = true) {x y : Double}
    (hx : a.double? = some x) (hy : b.double? = some y) :
    x = y ↔ oppositeZeros a b = false := by
  rw [oppositeZeros, zeroSign?_eq hx, zeroSign?_eq hy]
  rcases double_of_same h hx hy with rfl | ⟨hzx, hzy⟩
  · refine ⟨fun _ => ?_, fun _ => rfl⟩
    cases x.isZero <;> simp
  · rw [if_pos hzx, if_pos hzy]
    show x = y ↔ (x.isNegative != y.isNegative) = false
    rw [bne_eq_false_iff_eq]
    exact ⟨fun he => by rw [he], Word.eq_of_isZero hzx hzy⟩

theorem oppositeZeros_comm (a b : HostValue) : oppositeZeros a b = oppositeZeros b a := by
  unfold oppositeZeros
  cases a.zeroSign? with
  | none => cases b.zeroSign? <;> rfl
  | some s => cases b.zeroSign? with
    | none => rfl
    | some t => exact Bool.xor_comm s t

theorem oppositeZeros_self (a : HostValue) : oppositeZeros a a = false := by
  unfold oppositeZeros
  cases a.zeroSign? with
  | none => rfl
  | some s => exact bne_self_eq_false s

/-! ## The 32-bit format -/

/-- Two zeros become the same word if their signs are the same. -/
theorem narrow_eq_iff_of_isZero {x y : Double} (hx : x.isZero = true) (hy : y.isZero = true) :
    Double.narrow x = Double.narrow y ↔ x.isNegative = y.isNegative := by
  rw [Double.narrow_of_isZero hx, Double.narrow_of_isZero hy]
  refine ⟨fun h => ?_, fun h => by rw [h]⟩
  have hsign : (0 : Nat) < Format.binary32.signBit := Nat.two_pow_pos _
  have hnegative := congrArg Word.isNegative h
  rwa [Word.isNegative_ofParts hsign, Word.isNegative_ofParts hsign] at hnegative

/-- Equal numbers that are narrowed become the same word if they are not zeros of
opposite signs. -/
theorem narrow_eq_iff {a b : HostValue} (h : a.same b = true) {x y : Double}
    (hx : a.double? = some x) (hy : b.double? = some y) :
    Double.narrow x = Double.narrow y ↔ oppositeZeros a b = false := by
  have hdouble := double_eq_iff h hx hy
  rcases double_of_same h hx hy with rfl | ⟨hzx, hzy⟩
  · exact ⟨fun _ => hdouble.mp rfl, fun _ => rfl⟩
  · rw [narrow_eq_iff_of_isZero hzx hzy, ← hdouble]
    exact ⟨Word.eq_of_isZero hzx hzy, fun he => by rw [he]⟩

section
variable {n : Int} {x : Double} (h : (HostValue.int n).same (.float x) = true)
include h

/-- An integer that becomes the same word as a float does not part from it as a zero. -/
theorem oppositeZeros_of_narrow (hn : (Word.ofInt n : Single) = Double.narrow x) :
    oppositeZeros (.int n) (.float x) = false := by
  rcases double_of_same h rfl rfl with he | ⟨hz, -⟩
  · exact (double_eq_iff h rfl rfl).mp he
  · have hzero : n.natAbs ≤ 2 ^ 53 := by
      rw [Word.isZero_ofInt.mp hz]
      exact Nat.zero_le _
    rw [← Double.narrow_ofInt hzero] at hn
    exact (narrow_eq_iff h rfl rfl).mp hn

/-- An integer that is rounded apart from a float it equals is a zero of the opposite
sign, or greater than `2 ^ 53`. -/
theorem natAbs_of_roundedApart (hr : roundedApart (.int n) (.float x) = true) :
    oppositeZeros (.int n) (.float x) = true ∨ 2 ^ 53 < n.natAbs := by
  rw [or_iff_not_imp_right, Nat.not_lt]
  intro hn
  by_contra ho
  rw [Bool.not_eq_true, ← narrow_eq_iff h rfl rfl, Double.narrow_ofInt hn] at ho
  rw [roundedApart, ho, bne_self_eq_false] at hr
  cases hr

end

end HostValue

/-! ## Storage forms -/

open HostValue

theorem Primitive.toDatum_float64 {a : HostValue}
    (h : builtin.acceptsValue a (.primitive .float64) = .ok true) :
    ∃ x, a.double? = some x ∧ Primitive.toDatum .float64 a = .ok (.float64 x) := by
  cases a with
  | int n => exact ⟨_, rfl, rfl⟩
  | float x => exact ⟨_, rfl, rfl⟩
  | _ => cases h

theorem Primitive.toDatum_float32_eq_iff {a b : HostValue} (h : a.same b = true)
    (ha : builtin.acceptsValue a (.primitive .float32) = .ok true)
    (hb : builtin.acceptsValue b (.primitive .float32) = .ok true) :
    Primitive.toDatum .float32 a = Primitive.toDatum .float32 b ↔
      (oppositeZeros a b || roundedApart a b) = false := by
  rw [Bool.or_eq_false_iff]
  cases a with
  | int m =>
    cases b with
    | int n =>
      obtain rfl : m = n := beq_iff_eq.mp h
      exact ⟨fun _ => ⟨oppositeZeros_self _, rfl⟩, fun _ => rfl⟩
    | float y =>
      simp only [Primitive.toDatum, Except.ok.injEq, Datum.float32.injEq, roundedApart,
        bne_eq_false_iff_eq]
      exact ⟨fun he => ⟨oppositeZeros_of_narrow h he, he⟩, And.right⟩
    | _ => cases hb
  | float x =>
    cases b with
    | int n =>
      simp only [Primitive.toDatum, Except.ok.injEq, Datum.float32.injEq, roundedApart,
        bne_eq_false_iff_eq]
      rw [oppositeZeros_comm, eq_comm]
      exact ⟨fun he => ⟨oppositeZeros_of_narrow h he, he⟩, And.right⟩
    | float y =>
      simp only [Primitive.toDatum, Except.ok.injEq, Datum.float32.injEq]
      rw [narrow_eq_iff h rfl rfl]
      exact ⟨fun he => ⟨he, rfl⟩, And.left⟩
    | _ => cases hb
  | _ => cases ha

/-- Equal keys that are no floats are the same value. -/
theorem HostValue.eq_of_same {p : Primitive} (hp : p = .str ∨ p.isInteger = true) {a b : HostValue}
    (h : a.same b = true) (ha : builtin.acceptsValue a (.primitive p) = .ok true)
    (hb : builtin.acceptsValue b (.primitive p) = .ok true) : a = b := by
  rcases hp with rfl | hp
  · cases a with
    | str s =>
      cases b with
      | str t => exact congrArg HostValue.str (beq_iff_eq.mp h)
      | _ => cases hb
    | _ => cases ha
  · have hint : builtin.accepts (.primitive p) = .ok [.int] := by
      cases p <;> first | rfl | cases hp
    rw [acceptsValue, hint] at ha hb
    cases a with
    | int m =>
      cases b with
      | int n => exact congrArg HostValue.int (beq_iff_eq.mp h)
      | _ => cases hb
    | _ => cases ha

/-- Two keys that are equal to the host have one storage form if they are not parted. -/
theorem ElementType.toDatum_eq_iff {t : ElementType} (ht : t.isKey = true) {a b : HostValue}
    (h : a.same b = true) (ha : builtin.acceptsValue a t = .ok true)
    (hb : builtin.acceptsValue b t = .ok true) :
    t.toDatum a = t.toDatum b ↔ parted t a b = false := by
  cases t with
  | primitive p =>
    cases p with
    | float32 => exact Primitive.toDatum_float32_eq_iff h ha hb
    | float64 =>
      obtain ⟨x, hx, hdx⟩ := Primitive.toDatum_float64 ha
      obtain ⟨y, hy, hdy⟩ := Primitive.toDatum_float64 hb
      show Primitive.toDatum .float64 a = Primitive.toDatum .float64 b ↔ oppositeZeros a b = false
      rw [hdx, hdy, ← double_eq_iff h hx hy]
      simp
    | complex128 => cases ht
    | str => simp [eq_of_same (Or.inl rfl) h ha hb, parted]
    | _ => simp [eq_of_same (Or.inr rfl) h ha hb, parted]
  | vector _ => cases ht
  | set _ => cases ht
  | map _ _ => cases ht

/-- What parts two equal keys: they are zeros of opposite signs in a float type, or in
the 32-bit format one is an integer greater than `2 ^ 53`. -/
theorem HostValue.parted_cases {t : ElementType} {a b : HostValue} (h : a.same b = true)
    (hp : parted t a b = true) :
    oppositeZeros a b = true ∧ (t = .primitive .float32 ∨ t = .primitive .float64) ∨
      t = .primitive .float32 ∧ ∃ n, (a = .int n ∨ b = .int n) ∧ 2 ^ 53 < n.natAbs := by
  unfold parted at hp
  split at hp
  · exact Or.inl ⟨hp, Or.inr rfl⟩
  · rcases (Bool.or_eq_true _ _).mp hp with ho | hr
    · exact Or.inl ⟨ho, Or.inl rfl⟩
    · cases a with
      | int n =>
        cases b with
        | float x =>
          rcases natAbs_of_roundedApart h hr with ho | hn
          · exact Or.inl ⟨ho, Or.inl rfl⟩
          · exact Or.inr ⟨rfl, n, Or.inl rfl, hn⟩
        | _ => cases hr
      | float x =>
        cases b with
        | int n =>
          rcases natAbs_of_roundedApart (n := n) (x := x) h hr with ho | hn
          · rw [oppositeZeros_comm] at ho
            exact Or.inl ⟨ho, Or.inl rfl⟩
          · exact Or.inr ⟨rfl, n, Or.inr rfl, hn⟩
        | _ => cases hr
      | _ => cases hr
  · cases hp

end WrapGen
