import Mathlib.Data.List.Forall2

/-!
# Computations that may fail

A computation in steps has a result only if every step has one, and a list that
is computed item by item only if every item is. Items that correspond stand at the same
place of their lists.
-/
namespace WrapGen

variable {ε α β γ : Type}

/-- A computation that goes on with a result has one, and so has what follows. -/
theorem bind_eq_ok {x : Except ε α} {f : α → Except ε β} {b : β} (h : x >>= f = .ok b) :
    ∃ a, x = .ok a ∧ f a = .ok b := by
  cases x with
  | error e => cases h
  | ok a => exact ⟨a, rfl, h⟩

/-- A computation in two steps fails in the first or in the second. -/
theorem bind_eq_error {x : Except ε α} {f : α → Except ε β} {e : ε} (h : x >>= f = .error e) :
    x = .error e ∨ ∃ a, x = .ok a ∧ f a = .error e := by
  cases x with
  | error e' =>
    cases h
    exact Or.inl rfl
  | ok a => exact Or.inr ⟨a, rfl, h⟩

/-- Two steps give a result if both do. -/
theorem exists_bind_eq_ok {x : Except ε α} {f : α → Except ε β} (hx : ∃ a, x = .ok a)
    (hf : ∀ a, ∃ b, f a = .ok b) : ∃ b, x >>= f = .ok b := by
  obtain ⟨a, rfl⟩ := hx
  exact hf a

/-- Two steps fail if the second does whenever the first does not. -/
theorem exists_bind_eq_error {x : Except ε α} {f : α → Except ε β}
    (h : ∀ a, x = .ok a → ∃ e, f a = .error e) : ∃ e, x >>= f = .error e := by
  cases x with
  | error e => exact ⟨e, rfl⟩
  | ok a => exact h a rfl

/-- Other errors do not change the result. -/
theorem mapError_eq_ok_iff {x : Except ε α} {f : ε → γ} {a : α} :
    x.mapError f = .ok a ↔ x = .ok a := by
  cases x with
  | error e => exact ⟨nofun, nofun⟩
  | ok b => exact ⟨fun h => by cases h; rfl, fun h => by cases h; rfl⟩

theorem exists_mapM_eq_ok {f : α → Except ε β} : ∀ {xs : List α},
    (∀ x ∈ xs, ∃ y, f x = .ok y) → ∃ ys, xs.mapM f = .ok ys
  | [], _ => ⟨[], rfl⟩
  | x :: xs, h => by
    rw [List.mapM_cons]
    refine exists_bind_eq_ok (h x List.mem_cons_self) fun y => ?_
    refine exists_bind_eq_ok (exists_mapM_eq_ok fun z hz => h z (List.mem_cons_of_mem _ hz)) ?_
    exact fun ys => ⟨y :: ys, rfl⟩

theorem forall₂_of_mapM {f : α → Except ε β} : ∀ {xs : List α} {ys : List β},
    xs.mapM f = .ok ys → List.Forall₂ (fun x y => f x = .ok y) xs ys
  | [], ys, h => by
    cases h
    exact .nil
  | x :: xs, ys, h => by
    rw [List.mapM_cons] at h
    obtain ⟨y, hy, h⟩ := bind_eq_ok h
    obtain ⟨zs, hzs, h⟩ := bind_eq_ok h
    cases h
    exact .cons hy (forall₂_of_mapM hzs)

/-- Every item of a list that is computed has a result. -/
theorem exists_eq_ok_of_mapM {f : α → Except ε β} {xs : List α} {ys : List β}
    (h : xs.mapM f = .ok ys) : ∀ x ∈ xs, ∃ y, f x = .ok y := by
  have hforall := forall₂_of_mapM h
  clear h
  induction hforall with
  | nil => exact List.forall_mem_nil _
  | cons hx _ ih => exact List.forall_mem_cons.mpr ⟨⟨_, hx⟩, ih⟩

theorem mapM_eq_ok_iff {f : α → Except ε β} {xs : List α} {ys : List β} :
    xs.mapM f = .ok ys ↔ List.Forall₂ (fun x y => f x = .ok y) xs ys := by
  refine ⟨forall₂_of_mapM, fun h => ?_⟩
  induction h with
  | nil => rfl
  | cons hx _ ih =>
    rw [List.mapM_cons, hx, ih]
    rfl

/-- What holds of every item and its result holds of the lists, place by place. -/
theorem exists_mapM_forall₂ {f : β → Except ε γ} {P : α → β → Prop} {Q : γ → α → Prop}
    (hf : ∀ x y, P x y → ∃ z, f y = .ok z ∧ Q z x) {xs : List α} {ys : List β}
    (h : List.Forall₂ P xs ys) : ∃ zs, ys.mapM f = .ok zs ∧ List.Forall₂ Q zs xs := by
  induction h with
  | nil => exact ⟨[], rfl, .nil⟩
  | @cons x y xs ys hxy _ ih =>
    obtain ⟨z, hz, hq⟩ := hf x y hxy
    obtain ⟨zs, hzs, hqs⟩ := ih
    refine ⟨z :: zs, ?_, .cons hq hqs⟩
    rw [List.mapM_cons, hz, hzs]
    rfl

theorem mapM_append_eq_ok_iff {f : α → Except ε β} {xs ys : List α} {zs : List β} :
    (xs ++ ys).mapM f = .ok zs ↔
      ∃ as bs, xs.mapM f = .ok as ∧ ys.mapM f = .ok bs ∧ zs = as ++ bs := by
  rw [List.mapM_append]
  constructor
  · intro h
    obtain ⟨as, has, h⟩ := bind_eq_ok h
    obtain ⟨bs, hbs, h⟩ := bind_eq_ok h
    cases h
    exact ⟨as, bs, has, hbs, rfl⟩
  · rintro ⟨as, bs, has, hbs, rfl⟩
    rw [has, hbs]
    rfl

/-! ## Computations with the same result -/

/-- Two computations have the same result, or both fail. The errors may differ. -/
def SameResult (x y : Except ε α) : Prop := ∀ a, x = .ok a ↔ y = .ok a

namespace SameResult

variable {x y : Except ε α}

protected theorem rfl : SameResult x x := fun _ => Iff.rfl

theorem of_errors {e e' : ε} : SameResult (.error e : Except ε α) (.error e') :=
  fun _ => ⟨nofun, nofun⟩

theorem bind (h : SameResult x y) {f g : α → Except ε β} (hfg : ∀ a, SameResult (f a) (g a)) :
    SameResult (x >>= f) (y >>= g) := by
  intro b
  constructor
  · intro hx
    obtain ⟨a, ha, hb⟩ := bind_eq_ok hx
    rw [(h a).mp ha]
    exact (hfg a b).mp hb
  · intro hy
    obtain ⟨a, ha, hb⟩ := bind_eq_ok hy
    rw [(h a).mpr ha]
    exact (hfg a b).mpr hb

theorem mapError (h : SameResult x y) (f : ε → γ) :
    SameResult (x.mapError f) (y.mapError f) := by
  intro a
  rw [mapError_eq_ok_iff, mapError_eq_ok_iff, h a]

/-- Lists have the same results if their items have, place by place. -/
theorem mapM {f : α → Except ε γ} {g : β → Except ε γ} {xs : List α} {ys : List β}
    (h : List.Forall₂ (fun x y => SameResult (f x) (g y)) xs ys) :
    SameResult (xs.mapM f) (ys.mapM g) := by
  intro zs
  rw [mapM_eq_ok_iff, mapM_eq_ok_iff]
  induction h generalizing zs with
  | nil => rw [List.forall₂_nil_left_iff, List.forall₂_nil_left_iff]
  | cons hxy _ ih =>
    cases zs with
    | nil => exact ⟨nofun, nofun⟩
    | cons z zs => rw [List.forall₂_cons, List.forall₂_cons, hxy z, ih]

end SameResult

/-! ## Computations that correspond -/

/-- Two computations fail with the same error, or have results that are related. -/
def Corresponds (R : α → β → Prop) : Except ε α → Except ε β → Prop
  | .ok a, .ok b => R a b
  | .error e, .error e' => e = e'
  | _, _ => False

namespace Corresponds

variable {δ : Type} {R : α → β → Prop} {S : γ → δ → Prop}

theorem bind {x : Except ε α} {y : Except ε β} {f : α → Except ε γ} {g : β → Except ε δ}
    (h : Corresponds R x y) (hfg : ∀ a b, R a b → Corresponds S (f a) (g b)) :
    Corresponds S (x >>= f) (y >>= g) := by
  cases x with
  | error e =>
    cases y with
    | error e' => exact h
    | ok b => exact h.elim
  | ok a =>
    cases y with
    | error e' => exact h.elim
    | ok b => exact hfg a b h

/-- Two computations start with the same step. -/
theorem same {x : Except ε α} {f : α → Except ε γ} {g : α → Except ε δ}
    (h : ∀ a, x = .ok a → Corresponds S (f a) (g a)) : Corresponds S (x >>= f) (x >>= g) := by
  cases x with
  | error e => exact rfl
  | ok a => exact h a rfl

/-- Computations that correspond have results for the same inputs. -/
theorem exists_ok_iff {x : Except ε α} {y : Except ε β} (h : Corresponds R x y) :
    (∃ a, x = .ok a) ↔ ∃ b, y = .ok b := by
  cases x with
  | error e =>
    cases y with
    | error e' => exact ⟨nofun, nofun⟩
    | ok b => exact h.elim
  | ok a =>
    cases y with
    | error e' => exact h.elim
    | ok b => exact ⟨fun _ => ⟨b, rfl⟩, fun _ => ⟨a, rfl⟩⟩

end Corresponds

/-! ## The first error -/

/-- The first item of a list on which `f` fails, fails with `e`. -/
def FirstError (f : α → Except ε β) (xs : List α) (e : ε) : Prop :=
  ∃ before x after, xs = before ++ x :: after ∧ (∀ y ∈ before, ∃ b, f y = .ok b) ∧ f x = .error e

theorem firstError_cons_of_ok {f : α → Except ε β} {x : α} {b : β} (hx : f x = .ok b)
    {xs : List α} {e : ε} : FirstError f (x :: xs) e ↔ FirstError f xs e := by
  constructor
  · rintro ⟨before, y, after, heq, hbefore, hy⟩
    cases before with
    | nil =>
      cases heq
      rw [hx] at hy
      cases hy
    | cons z before =>
      cases heq
      exact ⟨before, y, after, rfl, fun w hw => hbefore w (List.mem_cons_of_mem _ hw), hy⟩
  · rintro ⟨before, y, after, rfl, hbefore, hy⟩
    exact ⟨x :: before, y, after, rfl, List.forall_mem_cons.mpr ⟨⟨b, hx⟩, hbefore⟩, hy⟩

/-- A list fails with the error of the first item that fails. -/
theorem mapM_eq_error_iff {f : α → Except ε β} {xs : List α} {e : ε} :
    xs.mapM f = .error e ↔ FirstError f xs e := by
  induction xs with
  | nil =>
    constructor
    · nofun
    · rintro ⟨before, x, after, heq, -, -⟩
      simp at heq
  | cons x xs ih =>
    rw [List.mapM_cons]
    cases hx : f x with
    | error e' =>
      constructor
      · intro h
        cases h
        exact ⟨[], x, xs, rfl, List.forall_mem_nil _, hx⟩
      · rintro ⟨before, y, after, heq, hbefore, hy⟩
        cases before with
        | nil =>
          cases heq
          cases hx.symm.trans hy
          rfl
        | cons z before =>
          cases heq
          obtain ⟨b, hb⟩ := hbefore x List.mem_cons_self
          cases hx.symm.trans hb
    | ok b =>
      rw [firstError_cons_of_ok hx, ← ih]
      constructor
      · intro h
        have hrest : (xs.mapM f >>= fun bs => pure (b :: bs)) = .error e := h
        rcases bind_eq_error hrest with h | ⟨bs, -, h⟩
        · exact h
        · cases h
      · intro h
        rw [h]
        rfl

/-- The error of a computation that fails. -/
def failure? : Except ε α → Option ε
  | .error e => some e
  | .ok _ => none

theorem failure?_eq_some_iff {x : Except ε α} {e : ε} : failure? x = some e ↔ x = .error e := by
  cases x with
  | error e' => simp [failure?]
  | ok a => simp [failure?]

theorem failure?_eq_none_iff {x : Except ε α} : failure? x = none ↔ ∃ a, x = .ok a := by
  cases x with
  | error e => simp [failure?]
  | ok a => simp [failure?]

theorem failure?_map (x : Except ε α) (g : α → β) :
    failure? (x >>= fun a => pure (g a)) = failure? x := by
  cases x <;> rfl

/-- Of two computations the first that fails gives the error. -/
theorem failure?_pair (x : Except ε α) (y : Except ε β) :
    failure? (do let a ← x; let b ← y; return (a, b)) = (failure? x).or (failure? y) := by
  cases x with
  | error e => rfl
  | ok a => cases y <;> rfl

theorem failure?_mapM (f : α → Except ε β) (xs : List α) :
    failure? (xs.mapM f) = xs.findSome? fun x => failure? (f x) := by
  induction xs with
  | nil => rfl
  | cons x xs ih =>
    rw [List.mapM_cons, List.findSome?_cons, ← ih]
    cases f x with
    | error e => rfl
    | ok b => exact failure?_map (xs.mapM f) (b :: ·)

theorem findSome?_flatMap (f : α → List β) (g : β → Option γ) (xs : List α) :
    (xs.flatMap f).findSome? g = xs.findSome? fun x => (f x).findSome? g := by
  induction xs with
  | nil => rfl
  | cons x xs ih =>
    rw [List.flatMap_cons, List.findSome?_append, ih, List.findSome?_cons]
    cases (f x).findSome? g <;> rfl

/-- A list fails where one of its items does. -/
theorem mapM_eq_error {f : α → Except ε β} {e : ε} {xs : List α} (h : xs.mapM f = .error e) :
    ∃ x ∈ xs, f x = .error e := by
  obtain ⟨before, x, after, rfl, -, hx⟩ := mapM_eq_error_iff.mp h
  exact ⟨x, by simp, hx⟩

/-- Items that all pass the first step go through the second one by one. -/
theorem mapM_bind {f : α → Except ε β} {g : β → Except ε γ} : ∀ {xs : List α},
    (∀ x ∈ xs, ∃ y, f x = .ok y) →
      (do (← xs.mapM f).mapM g) = xs.mapM fun x => do g (← f x)
  | [], _ => rfl
  | x :: xs, h => by
    obtain ⟨hx, hxs⟩ := List.forall_mem_cons.mp h
    obtain ⟨y, hy⟩ := hx
    obtain ⟨ys, hys⟩ := exists_mapM_eq_ok hxs
    have ih := mapM_bind (g := g) hxs
    rw [hys] at ih
    rw [List.mapM_cons, List.mapM_cons, hy, hys]
    show (y :: ys).mapM g = do
      let z ← g y
      let zs ← xs.mapM fun x => do g (← f x)
      return z :: zs
    rw [← ih]
    exact List.mapM_cons

/-! ## Items that correspond -/

section
variable {R : α → β → Prop} {xs : List α} {ys : List β}

theorem forall₂_getElem? (h : List.Forall₂ R xs ys) {i : Nat} {y : β} (hy : ys[i]? = some y) :
    ∃ x, xs[i]? = some x ∧ R x y := by
  induction h generalizing i with
  | nil => cases hy
  | @cons x z xs zs hr _ ih =>
    cases i with
    | zero =>
      cases hy
      exact ⟨x, rfl, hr⟩
    | succ i => exact ih hy

theorem forall₂_getElem?_left (h : List.Forall₂ R xs ys) {i : Nat} {x : α}
    (hx : xs[i]? = some x) : ∃ y, ys[i]? = some y ∧ R x y :=
  forall₂_getElem? h.flip hx

theorem forall₂_mem_left (h : List.Forall₂ R xs ys) {x : α} (hx : x ∈ xs) : ∃ y ∈ ys, R x y := by
  obtain ⟨i, hi⟩ := List.mem_iff_getElem?.mp hx
  obtain ⟨y, hy, hr⟩ := forall₂_getElem?_left h hi
  exact ⟨y, List.mem_of_getElem? hy, hr⟩

theorem forall₂_mem_right (h : List.Forall₂ R xs ys) {y : β} (hy : y ∈ ys) :
    ∃ x ∈ xs, R x y :=
  forall₂_mem_left h.flip hy

theorem forall₂_swap_of_mem {S : β → α → Prop} (h : List.Forall₂ R xs ys)
    (hswap : ∀ x ∈ xs, ∀ y ∈ ys, R x y → S y x) : List.Forall₂ S ys xs := by
  induction h with
  | nil => exact .nil
  | cons hr _ ih =>
    refine .cons (hswap _ List.mem_cons_self _ List.mem_cons_self hr) (ih fun x hx y hy => ?_)
    exact hswap x (List.mem_cons_of_mem _ hx) y (List.mem_cons_of_mem _ hy)

theorem forall₂_trans_of_mem {S : β → γ → Prop} {T : α → γ → Prop} {zs : List γ}
    (h : List.Forall₂ R xs ys) (h' : List.Forall₂ S ys zs)
    (htrans : ∀ x ∈ xs, ∀ y ∈ ys, ∀ z ∈ zs, R x y → S y z → T x z) : List.Forall₂ T xs zs := by
  induction h generalizing zs with
  | nil =>
    cases h'
    exact .nil
  | cons hr _ ih =>
    cases h' with
    | cons hs hrest =>
      refine .cons (htrans _ List.mem_cons_self _ List.mem_cons_self _ List.mem_cons_self hr hs)
        (ih hrest fun x hx y hy z hz => ?_)
      exact htrans x (List.mem_cons_of_mem _ hx) y (List.mem_cons_of_mem _ hy) z
        (List.mem_cons_of_mem _ hz)

theorem forall₂_set (h : List.Forall₂ R xs ys) {i : Nat} {y : β}
    (hy : ∀ x, xs[i]? = some x → R x y) : List.Forall₂ R xs (ys.set i y) := by
  induction h generalizing i with
  | nil => exact .nil
  | @cons x z xs zs hr hrest ih =>
    cases i with
    | zero => exact .cons (hy x rfl) hrest
    | succ i => exact .cons hr (ih hy)

end

end WrapGen
