import Mathlib.Order.Compare
import Mathlib.Order.Lattice
import WrapGen.Value.Datum

/-!
# Data are totally ordered

`Datum.compare` looks at the kinds first and then at the contents, item by item.
The statements about all data go by recursion on the first datum: data of
different rank are compared by it (`compare_of_rank_ne`), and of two data with
one rank both have the same form.

* `compare_swap`: the comparison from the other side is the reverse.
* `compare_chained`: what follows for the outer two of three data.
* `eq_of_compare`: only equal data compare as equal.

The instances make the order one that sorted lists and finite sets of data can
be taken in.
-/
namespace WrapGen

open Binary

/-! ## Chains of comparisons -/

/-- What two comparisons in a row say about the outer two: `o₃` is the first of
them that is decided, unless one goes down. -/
def Chained (o₁ o₂ o₃ : Ordering) : Prop := o₁ ≠ .gt → o₂ ≠ .gt → o₃ = o₁.then o₂

instance (o₁ o₂ o₃ : Ordering) : Decidable (Chained o₁ o₂ o₃) :=
  inferInstanceAs (Decidable (_ → _ → _))

theorem Chained.then {o₁ o₂ o₃ r₁ r₂ r₃ : Ordering} (ho : Chained o₁ o₂ o₃)
    (hr : Chained r₁ r₂ r₃) : Chained (o₁.then r₁) (o₂.then r₂) (o₃.then r₃) := by
  revert o₁ o₂ o₃ r₁ r₂ r₃
  decide

theorem chained_of_transCmp {α : Type} (cmp : α → α → Ordering) [Std.TransCmp cmp] (a b c : α) :
    Chained (cmp a b) (cmp b c) (cmp a c) := by
  intro hab hbc
  cases h : cmp a b with
  | gt => exact absurd h hab
  | eq =>
    cases h' : cmp b c with
    | gt => exact absurd h' hbc
    | eq => exact Std.TransCmp.eq_trans h h'
    | lt => exact Std.TransCmp.lt_of_eq_of_lt h h'
  | lt =>
    cases h' : cmp b c with
    | gt => exact absurd h' hbc
    | eq => exact Std.TransCmp.lt_of_lt_of_eq h h'
    | lt => exact Std.TransCmp.lt_trans h h'

namespace Binary.Word

variable {f : Format}

theorem compare_swap (x y : Word f) : (x.compare y).swap = y.compare x :=
  Std.OrientedOrd.eq_swap.symm

theorem compare_chained (x y z : Word f) :
    Chained (x.compare y) (y.compare z) (x.compare z) :=
  chained_of_transCmp Ord.compare x.orderKey y.orderKey z.orderKey

end Binary.Word

namespace Datum

/-! ## Ranks -/

theorem str_of_rank {d : Datum} (h : d.rank = 0) : ∃ s, d = .str s := by
  cases d with
  | str s => exact ⟨s, rfl⟩
  | integer k n => cases k <;> cases h
  | _ => cases h

theorem integer_of_rank {d : Datum} {k : IntegerKind} (h : d.rank = k.rank) :
    ∃ n, d = .integer k n := by
  cases d with
  | integer j n =>
    have hjk : j = k := by cases j <;> cases k <;> first | rfl | cases h
    subst hjk
    exact ⟨n, rfl⟩
  | _ => cases k <;> cases h

theorem float32_of_rank {d : Datum} (h : d.rank = 5) : ∃ x, d = .float32 x := by
  cases d with
  | float32 x => exact ⟨x, rfl⟩
  | integer k n => cases k <;> cases h
  | _ => cases h

theorem float64_of_rank {d : Datum} (h : d.rank = 6) : ∃ x, d = .float64 x := by
  cases d with
  | float64 x => exact ⟨x, rfl⟩
  | integer k n => cases k <;> cases h
  | _ => cases h

theorem complex_of_rank {d : Datum} (h : d.rank = 7) : ∃ re im, d = .complex re im := by
  cases d with
  | complex re im => exact ⟨re, im, rfl⟩
  | integer k n => cases k <;> cases h
  | _ => cases h

theorem vector_of_rank {d : Datum} (h : d.rank = 8) : ∃ items, d = .vector items := by
  cases d with
  | vector items => exact ⟨items, rfl⟩
  | integer k n => cases k <;> cases h
  | _ => cases h

theorem set_of_rank {d : Datum} (h : d.rank = 9) : ∃ items, d = .set items := by
  cases d with
  | set items => exact ⟨items, rfl⟩
  | integer k n => cases k <;> cases h
  | _ => cases h

theorem map_of_rank {d : Datum} (h : d.rank = 10) : ∃ entries, d = .map entries := by
  cases d with
  | map entries => exact ⟨entries, rfl⟩
  | integer k n => cases k <;> cases h
  | _ => cases h

/-- Data of different rank are compared by their ranks. -/
theorem compare_of_rank_ne {a b : Datum} (h : a.rank ≠ b.rank) :
    a.compare b = Ord.compare a.rank b.rank := by
  cases a with
  | integer j m =>
    cases b with
    | integer k n =>
      have hne : Ord.compare j.rank k.rank ≠ .eq := fun he => h (Std.LawfulEqOrd.eq_of_compare he)
      show (Ord.compare j.rank k.rank).then _ = _
      cases hc : Ord.compare j.rank k.rank with
      | eq => exact absurd hc hne
      | lt => exact hc.symm
      | gt => exact hc.symm
    | _ => rfl
  | _ =>
    cases b with
    | _ => first | rfl | exact absurd rfl h

theorem rank_le_of_compare {a b : Datum} (h : a.compare b ≠ .gt) : a.rank ≤ b.rank := by
  by_contra hgt
  have hne : a.rank ≠ b.rank := by omega
  rw [compare_of_rank_ne hne] at h
  exact h (Nat.compare_eq_gt.mpr (by omega))

theorem compare_of_rank_lt {a b : Datum} (h : a.rank < b.rank) : a.compare b = .lt := by
  rw [compare_of_rank_ne (Nat.ne_of_lt h)]
  exact Nat.compare_eq_lt.mpr h

theorem chained_of_rank_ne {a b c : Datum} (h : ¬(b.rank = a.rank ∧ c.rank = a.rank)) :
    Chained (a.compare b) (b.compare c) (a.compare c) := by
  intro hab hbc
  have h₁ := rank_le_of_compare hab
  have h₂ := rank_le_of_compare hbc
  rw [compare_of_rank_lt (a := a) (b := c) (by omega)]
  by_cases hlt : a.rank < b.rank
  · rw [compare_of_rank_lt hlt]
    rfl
  · rw [compare_of_rank_lt (a := b) (b := c) (by omega)]
    cases ho : a.compare b with
    | gt => exact absurd ho hab
    | eq => rfl
    | lt => rfl

theorem swap_of_rank_ne {a b : Datum} (h : b.rank ≠ a.rank) :
    (a.compare b).swap = b.compare a := by
  rw [compare_of_rank_ne h, compare_of_rank_ne h.symm]
  exact Std.OrientedOrd.eq_swap.symm

/-! ## The order -/

mutual

/-- From the other side, the comparison is the reverse. -/
theorem compare_swap : ∀ a b : Datum, (a.compare b).swap = b.compare a
  | .str s, b => by
    by_cases h : b.rank = 0
    · obtain ⟨t, rfl⟩ := str_of_rank h
      exact Std.OrientedOrd.eq_swap.symm
    · exact swap_of_rank_ne h
  | .integer k m, b => by
    by_cases h : b.rank = k.rank
    · obtain ⟨n, rfl⟩ := integer_of_rank h
      show ((Ord.compare k.rank k.rank).then (Ord.compare m.val n.val)).swap = _
      rw [Ordering.swap_then, ← Std.OrientedOrd.eq_swap, ← Std.OrientedOrd.eq_swap]
      rfl
    · exact swap_of_rank_ne h
  | .float32 x, b => by
    by_cases h : b.rank = 5
    · obtain ⟨y, rfl⟩ := float32_of_rank h
      exact x.compare_swap y
    · exact swap_of_rank_ne h
  | .float64 x, b => by
    by_cases h : b.rank = 6
    · obtain ⟨y, rfl⟩ := float64_of_rank h
      exact x.compare_swap y
    · exact swap_of_rank_ne h
  | .complex x y, b => by
    by_cases h : b.rank = 7
    · obtain ⟨z, w, rfl⟩ := complex_of_rank h
      show ((x.compare z).then (y.compare w)).swap = (z.compare x).then (w.compare y)
      rw [Ordering.swap_then, x.compare_swap, y.compare_swap]
    · exact swap_of_rank_ne h
  | .vector xs, b => by
    by_cases h : b.rank = 8
    · obtain ⟨ys, rfl⟩ := vector_of_rank h
      exact compareItems_swap xs ys
    · exact swap_of_rank_ne h
  | .set xs, b => by
    by_cases h : b.rank = 9
    · obtain ⟨ys, rfl⟩ := set_of_rank h
      exact compareItems_swap xs ys
    · exact swap_of_rank_ne h
  | .map ps, b => by
    by_cases h : b.rank = 10
    · obtain ⟨qs, rfl⟩ := map_of_rank h
      exact compareEntries_swap ps qs
    · exact swap_of_rank_ne h

theorem compareItems_swap : ∀ xs ys : List Datum, (compareItems xs ys).swap = compareItems ys xs
  | [], [] | [], _ :: _ | _ :: _, [] => rfl
  | x :: xs, y :: ys => by
    rw [compareItems, compareItems, Ordering.swap_then, compare_swap x y, compareItems_swap xs ys]

theorem compareEntries_swap : ∀ ps qs : List (Datum × Datum),
    (compareEntries ps qs).swap = compareEntries qs ps
  | [], [] | [], _ :: _ | _ :: _, [] => rfl
  | (k, v) :: ps, (l, w) :: qs => by
    rw [compareEntries, compareEntries, Ordering.swap_then, Ordering.swap_then, compare_swap k l,
      compare_swap v w, compareEntries_swap ps qs]

end

mutual

/-- Of three data in a row, the outer two compare as the first of the two
comparisons that is decided. -/
theorem compare_chained : ∀ a b c : Datum, Chained (a.compare b) (b.compare c) (a.compare c)
  | .str s, b, c => by
    by_cases h : b.rank = 0 ∧ c.rank = 0
    · obtain ⟨t, rfl⟩ := str_of_rank h.1
      obtain ⟨u, rfl⟩ := str_of_rank h.2
      exact chained_of_transCmp Ord.compare s t u
    · exact chained_of_rank_ne h
  | .integer k m, b, c => by
    by_cases h : b.rank = k.rank ∧ c.rank = k.rank
    · obtain ⟨n, rfl⟩ := integer_of_rank h.1
      obtain ⟨o, rfl⟩ := integer_of_rank h.2
      exact (chained_of_transCmp Ord.compare k.rank k.rank k.rank).then
        (chained_of_transCmp Ord.compare m.val n.val o.val)
    · exact chained_of_rank_ne h
  | .float32 x, b, c => by
    by_cases h : b.rank = 5 ∧ c.rank = 5
    · obtain ⟨y, rfl⟩ := float32_of_rank h.1
      obtain ⟨z, rfl⟩ := float32_of_rank h.2
      exact x.compare_chained y z
    · exact chained_of_rank_ne h
  | .float64 x, b, c => by
    by_cases h : b.rank = 6 ∧ c.rank = 6
    · obtain ⟨y, rfl⟩ := float64_of_rank h.1
      obtain ⟨z, rfl⟩ := float64_of_rank h.2
      exact x.compare_chained y z
    · exact chained_of_rank_ne h
  | .complex x y, b, c => by
    by_cases h : b.rank = 7 ∧ c.rank = 7
    · obtain ⟨x₂, y₂, rfl⟩ := complex_of_rank h.1
      obtain ⟨x₃, y₃, rfl⟩ := complex_of_rank h.2
      exact (x.compare_chained x₂ x₃).then (y.compare_chained y₂ y₃)
    · exact chained_of_rank_ne h
  | .vector xs, b, c => by
    by_cases h : b.rank = 8 ∧ c.rank = 8
    · obtain ⟨ys, rfl⟩ := vector_of_rank h.1
      obtain ⟨zs, rfl⟩ := vector_of_rank h.2
      exact compareItems_chained xs ys zs
    · exact chained_of_rank_ne h
  | .set xs, b, c => by
    by_cases h : b.rank = 9 ∧ c.rank = 9
    · obtain ⟨ys, rfl⟩ := set_of_rank h.1
      obtain ⟨zs, rfl⟩ := set_of_rank h.2
      exact compareItems_chained xs ys zs
    · exact chained_of_rank_ne h
  | .map ps, b, c => by
    by_cases h : b.rank = 10 ∧ c.rank = 10
    · obtain ⟨qs, rfl⟩ := map_of_rank h.1
      obtain ⟨rs, rfl⟩ := map_of_rank h.2
      exact compareEntries_chained ps qs rs
    · exact chained_of_rank_ne h

theorem compareItems_chained : ∀ xs ys zs : List Datum,
    Chained (compareItems xs ys) (compareItems ys zs) (compareItems xs zs)
  | [], [], [] | [], [], _ :: _ | [], _ :: _, [] | [], _ :: _, _ :: _ | _ :: _, [], [] => by
    simp [compareItems, Chained]
  | _ :: _, [], _ :: _ | _ :: _, _ :: _, [] => by simp [compareItems, Chained]
  | x :: xs, y :: ys, z :: zs => by
    rw [compareItems, compareItems, compareItems]
    exact (compare_chained x y z).then (compareItems_chained xs ys zs)

theorem compareEntries_chained : ∀ ps qs rs : List (Datum × Datum),
    Chained (compareEntries ps qs) (compareEntries qs rs) (compareEntries ps rs)
  | [], [], [] | [], [], _ :: _ | [], _ :: _, [] | [], _ :: _, _ :: _ | _ :: _, [], [] => by
    simp [compareEntries, Chained]
  | _ :: _, [], _ :: _ | _ :: _, _ :: _, [] => by simp [compareEntries, Chained]
  | (k, v) :: ps, (l, w) :: qs, (m, u) :: rs => by
    rw [compareEntries, compareEntries, compareEntries]
    exact ((compare_chained k l m).then (compare_chained v w u)).then
      (compareEntries_chained ps qs rs)

end

/-- Data that compare as equal have the same rank. -/
theorem rank_eq_of_compare {a b : Datum} (h : a.compare b = .eq) : b.rank = a.rank := by
  by_contra hne
  rw [compare_of_rank_ne (Ne.symm hne)] at h
  exact hne (Std.LawfulEqOrd.eq_of_compare h).symm

mutual

/-- Only equal data compare as equal. -/
theorem eq_of_compare : ∀ {a b : Datum}, a.compare b = .eq → a = b
  | .str s, b, h => by
    obtain ⟨t, rfl⟩ := str_of_rank (rank_eq_of_compare h)
    rw [Std.LawfulEqOrd.eq_of_compare h]
  | .integer k m, b, h => by
    obtain ⟨n, rfl⟩ := integer_of_rank (rank_eq_of_compare h)
    have hv := (Ordering.then_eq_eq.mp h).2
    rw [Subtype.ext (Std.LawfulEqOrd.eq_of_compare hv)]
  | .float32 x, b, h => by
    obtain ⟨y, rfl⟩ := float32_of_rank (rank_eq_of_compare h)
    rw [Word.compare_eq_iff.mp h]
  | .float64 x, b, h => by
    obtain ⟨y, rfl⟩ := float64_of_rank (rank_eq_of_compare h)
    rw [Word.compare_eq_iff.mp h]
  | .complex x y, b, h => by
    obtain ⟨z, w, rfl⟩ := complex_of_rank (rank_eq_of_compare h)
    obtain ⟨h₁, h₂⟩ := Ordering.then_eq_eq.mp h
    rw [Word.compare_eq_iff.mp h₁, Word.compare_eq_iff.mp h₂]
  | .vector xs, b, h => by
    obtain ⟨ys, rfl⟩ := vector_of_rank (rank_eq_of_compare h)
    rw [eq_of_compareItems xs ys h]
  | .set xs, b, h => by
    obtain ⟨ys, rfl⟩ := set_of_rank (rank_eq_of_compare h)
    rw [eq_of_compareItems xs ys h]
  | .map ps, b, h => by
    obtain ⟨qs, rfl⟩ := map_of_rank (rank_eq_of_compare h)
    rw [eq_of_compareEntries ps qs h]

theorem eq_of_compareItems : ∀ xs ys : List Datum, compareItems xs ys = .eq → xs = ys
  | [], [], _ => rfl
  | [], _ :: _, h | _ :: _, [], h => by cases h
  | x :: xs, y :: ys, h => by
    obtain ⟨h₁, h₂⟩ := Ordering.then_eq_eq.mp h
    rw [eq_of_compare h₁, eq_of_compareItems xs ys h₂]

theorem eq_of_compareEntries : ∀ ps qs : List (Datum × Datum),
    compareEntries ps qs = .eq → ps = qs
  | [], [], _ => rfl
  | [], _ :: _, h | _ :: _, [], h => by cases h
  | (k, v) :: ps, (l, w) :: qs, h => by
    obtain ⟨h₁, h₂⟩ := Ordering.then_eq_eq.mp h
    obtain ⟨hk, hv⟩ := Ordering.then_eq_eq.mp h₁
    rw [eq_of_compare hk, eq_of_compare hv, eq_of_compareEntries ps qs h₂]

end

instance : Std.OrientedCmp Datum.compare where
  eq_swap := (compare_swap _ _).symm

instance : Std.TransCmp Datum.compare where
  isLE_trans {a b c} hab hbc := by
    have h := compare_chained a b c (Ordering.ne_gt_iff_isLE.mpr hab)
      (Ordering.ne_gt_iff_isLE.mpr hbc)
    rw [h, Ordering.isLE_then_iff_and]
    exact ⟨hab, Or.inr hbc⟩

instance : Std.LawfulEqCmp Datum.compare where
  compare_self := by
    intro a
    have h := compare_swap a a
    cases ho : a.compare a with
    | eq => rfl
    | lt => rw [ho] at h; cases h
    | gt => rw [ho] at h; cases h
  eq_of_compare := eq_of_compare

@[simp] theorem compare_self (a : Datum) : a.compare a = .eq := Std.ReflCmp.compare_self

theorem compare_eq_iff_eq {a b : Datum} : a.compare b = .eq ↔ a = b :=
  Std.LawfulEqCmp.compare_eq_iff_eq

instance : DecidableEq Datum := fun _ _ => decidable_of_iff _ compare_eq_iff_eq

instance : LinearOrder Datum where
  le a b := (a.compare b).isLE = true
  lt a b := a.compare b = .lt
  le_refl a := by rw [compare_self]; rfl
  le_trans _ _ _ := Std.TransCmp.isLE_trans
  le_antisymm a b hab hba := by
    apply eq_of_compare
    rw [← compare_swap] at hba
    cases ho : a.compare b with
    | eq => rfl
    | lt => rw [ho] at hba; cases hba
    | gt => rw [ho] at hab; cases hab
  lt_iff_le_not_ge a b := by
    rw [← compare_swap a b]
    cases a.compare b <;> simp
  le_total a b := by
    rw [← compare_swap a b]
    cases a.compare b <;> simp
  toDecidableEq := inferInstance
  toDecidableLE _ _ := inferInstanceAs (Decidable (_ = true))
  toDecidableLT _ _ := inferInstanceAs (Decidable (_ = Ordering.lt))
  compare := Datum.compare
  compare_eq_compareOfLessAndEq a b := by
    unfold compareOfLessAndEq
    split
    · assumption
    · rename_i hlt
      split
      · rename_i he
        rw [he, compare_self]
      · rename_i hne
        have hn : a.compare b ≠ .eq := fun ho => hne (eq_of_compare ho)
        cases ho : a.compare b with
        | lt => exact absurd ho hlt
        | eq => exact absurd ho hn
        | gt => rfl

theorem lt_iff {a b : Datum} : a < b ↔ a.compare b = .lt := Iff.rfl

end Datum

end WrapGen
