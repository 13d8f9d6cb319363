import WrapGen.Proofs.Execution.Merged
import WrapGen.Proofs.Value.Equality
import WrapGen.Proofs.Value.Matching

/-!
# Host equality as a relation

The host compares sets and dicts by their number of members and by one containment,
and an integer with a float after rounding it (`HostValue.same`). So neither transitivity
nor symmetry holds of all values:

* a float may equal two different integers that round to it (`Blurs`), which takes an
  integer greater than `2 ^ 53`; nothing else breaks transitivity (`same_trans`),
  whether or not there are duplicates;
* without duplicates and without such a float the order of the two does not matter
  (`same_comm_of_clear`): the members of one set lead to different members of the
  other, so they lead to all of them.
-/
namespace WrapGen

open Binary

/-! ## Numbers -/

namespace Binary.Word

variable {f : Format} {x y z : Word f}

theorem same_comm (x y : Word f) : x.same y = y.same x := by
  rw [same, same, Bool.and_comm (!x.isNaN), Bool.and_comm x.isZero, Bool.beq_comm]

theorem same_trans (hxy : x.same y = true) (hyz : y.same z = true) : x.same z = true := by
  rcases eq_or_isZero_of_same hxy with rfl | ⟨hx, hy⟩
  · exact hyz
  · rcases eq_or_isZero_of_same hyz with rfl | ⟨-, hz⟩
    · exact hxy
    · simp only [same, Bool.and_eq_true] at hxy hyz ⊢
      exact ⟨⟨hxy.1.1, hyz.1.2⟩, by rw [hx, hz, Bool.and_self, Bool.or_true]⟩

end Binary.Word

namespace HostValue

/-- Two integers that equal one float, and are up to `2 ^ 53`, are one. -/
theorem eq_of_same_float {m n : Int} {x : Double} (hm : m.natAbs ≤ 2 ^ 53)
    (hn : n.natAbs ≤ 2 ^ 53) (hmx : (int m).same (.float x) = true)
    (hnx : (int n).same (.float x) = true) : m = n := by
  have hword : (Word.ofInt m : Double).same (Word.ofInt n) = true :=
    Word.same_trans hmx ((Word.same_comm _ _).trans hnx)
  rcases Word.eq_or_isZero_of_same hword with he | ⟨hzm, hzn⟩
  · exact Double.ofInt_injective hm hn he
  · rw [Word.isZero_ofInt.mp hzm, Word.isZero_ofInt.mp hzn]

/-! ## Values inside values -/

/-- Induction over a value and the values inside it. -/
theorem inside_induction {motive : HostValue → Prop} (none : motive .none)
    (int : ∀ n, motive (.int n)) (float : ∀ x, motive (.float x))
    (complex : ∀ re im, motive (.complex re im)) (str : ∀ s, motive (.str s))
    (list : ∀ items, (∀ v ∈ items, motive v) → motive (.list items))
    (tuple : ∀ items, (∀ v ∈ items, motive v) → motive (.tuple items))
    (set : ∀ items, (∀ v ∈ items, motive v) → motive (.set items))
    (dict : ∀ entries, (∀ e ∈ entries, motive e.1 ∧ motive e.2) → motive (.dict entries))
    (v : HostValue) : motive v :=
  @HostValue.rec motive (fun items => ∀ v ∈ items, motive v)
    (fun entries => ∀ e ∈ entries, motive e.1 ∧ motive e.2) (fun e => motive e.1 ∧ motive e.2)
    none int float complex str list tuple set dict
    (List.forall_mem_nil _) (fun _ _ hv hvs => List.forall_mem_cons.mpr ⟨hv, hvs⟩)
    (List.forall_mem_nil _) (fun _ _ he hes => List.forall_mem_cons.mpr ⟨he, hes⟩)
    (fun _ _ hk hv => ⟨hk, hv⟩) v

/-- The value `u` is the other value, or stands inside it at any depth. -/
inductive Occurs (u : HostValue) : HostValue → Prop
  | self : Occurs u u
  | list {items : List HostValue} {v : HostValue} (hv : v ∈ items) (hu : Occurs u v) :
      Occurs u (.list items)
  | tuple {items : List HostValue} {v : HostValue} (hv : v ∈ items) (hu : Occurs u v) :
      Occurs u (.tuple items)
  | set {items : List HostValue} {v : HostValue} (hv : v ∈ items) (hu : Occurs u v) :
      Occurs u (.set items)
  | key {entries : List (HostValue × HostValue)} {e : HostValue × HostValue}
      (he : e ∈ entries) (hu : Occurs u e.1) : Occurs u (.dict entries)
  | value {entries : List (HostValue × HostValue)} {e : HostValue × HostValue}
      (he : e ∈ entries) (hu : Occurs u e.2) : Occurs u (.dict entries)

/-- A float inside `b` equals two different integers, one inside `a` and one inside
`c`. One of them is too large for every integer of its size to be a float. -/
def Blurs (a b c : HostValue) : Prop :=
  ∃ (m n : Int) (x : Double), (int m).Occurs a ∧ (float x).Occurs b ∧ (int n).Occurs c ∧
    m ≠ n ∧ 2 ^ 53 < max m.natAbs n.natAbs ∧
    (int m).same (.float x) = true ∧ (int n).same (.float x) = true

namespace Blurs

variable {a b c a' b' c' : HostValue}

theorem symm (h : Blurs a b c) : Blurs c b a := by
  obtain ⟨m, n, x, hm, hx, hn, hne, hlarge, hmx, hnx⟩ := h
  exact ⟨n, m, x, hn, hx, hm, hne.symm, by rwa [max_comm], hnx, hmx⟩

/-- What happens inside values happens inside the values that hold them. -/
theorem mono (h : Blurs a b c) (ha : ∀ u, Occurs u a → Occurs u a')
    (hb : ∀ u, Occurs u b → Occurs u b') (hc : ∀ u, Occurs u c → Occurs u c') :
    Blurs a' b' c' := by
  obtain ⟨m, n, x, hm, hx, hn, hrest⟩ := h
  exact ⟨m, n, x, ha _ hm, hb _ hx, hc _ hn, hrest⟩

theorem of_numbers {m n : Int} {x : Double} (hne : m ≠ n) (hmx : (int m).same (.float x) = true)
    (hnx : (int n).same (.float x) = true) : Blurs (.int m) (.float x) (.int n) := by
  refine ⟨m, n, x, .self, .self, .self, hne, ?_, hmx, hnx⟩
  by_contra hsmall
  rw [Nat.not_lt, Nat.max_le] at hsmall
  exact hne (eq_of_same_float hsmall.1 hsmall.2 hmx hnx)

end Blurs

/-! ## Both sides of a comparison -/

section
variable {xs ys : List HostValue} {ps qs : List (HostValue × HostValue)}

theorem agrees_set_left_iff : (set xs).agrees false (.set ys) = true ↔
    xs.length = ys.length ∧ ∀ x ∈ xs, ∃ y ∈ ys, x.agrees true y = true := by
  rw [agrees, Bool.and_eq_true, beq_iff_eq, if_neg Bool.false_ne_true, eachIsMember_iff]

theorem agrees_set_right_iff : (set xs).agrees true (.set ys) = true ↔
    xs.length = ys.length ∧ ∀ y ∈ ys, ∃ x ∈ xs, x.agrees false y = true := by
  rw [agrees, Bool.and_eq_true, beq_iff_eq, if_pos rfl, List.all_eq_true]
  simp only [hasMember_iff]

theorem agrees_dict_left_iff : (dict ps).agrees false (.dict qs) = true ↔ ps.length = qs.length ∧
    ∀ p ∈ ps, ∃ q ∈ qs, p.1.agrees false q.1 = true ∧ p.2.agrees false q.2 = true := by
  rw [agrees, Bool.and_eq_true, beq_iff_eq, if_neg Bool.false_ne_true, eachIsEntry_iff]

theorem agrees_dict_right_iff : (dict ps).agrees true (.dict qs) = true ↔ ps.length = qs.length ∧
    ∀ q ∈ qs, ∃ p ∈ ps, p.1.agrees true q.1 = true ∧ p.2.agrees true q.2 = true := by
  rw [agrees, Bool.and_eq_true, beq_iff_eq, if_pos rfl, List.all_eq_true]
  simp only [hasEntry_iff]

theorem agreeAll_swap (side : Bool)
    (h : ∀ x ∈ xs, ∀ (side : Bool) (y : HostValue), x.agrees side y = y.agrees (!side) x) :
    agreeAll side xs ys = agreeAll (!side) ys xs := by
  induction xs generalizing ys with
  | nil => cases ys <;> rfl
  | cons x xs ih =>
    cases ys with
    | nil => rfl
    | cons y ys =>
      obtain ⟨hx, hxs⟩ := List.forall_mem_cons.mp h
      rw [agreeAll, agreeAll, hx, ih hxs]

end

/-- A comparison asked from the other side is that of the values swapped. -/
theorem agrees_swap (a : HostValue) (side : Bool) (b : HostValue) :
    a.agrees side b = b.agrees (!side) a := by
  induction a using inside_induction generalizing side b with
  | none => cases b <;> rfl
  | int m =>
    cases b with
    | int n => exact Bool.beq_comm
    | _ => rfl
  | float x =>
    cases b with
    | float y => exact Word.same_comm x y
    | _ => rfl
  | complex re im =>
    cases b with
    | complex re' im' => exact congrArg₂ and (Word.same_comm re re') (Word.same_comm im im')
    | _ => rfl
  | str s =>
    cases b with
    | str t => exact Bool.beq_comm
    | _ => rfl
  | list xs ih =>
    cases b with
    | list ys => exact agreeAll_swap side ih
    | _ => rfl
  | tuple xs ih =>
    cases b with
    | tuple ys => exact agreeAll_swap side ih
    | _ => rfl
  | set xs ih =>
    cases b with
    | set ys =>
      rw [Bool.eq_iff_iff]
      cases side with
      | false =>
        rw [agrees_set_left_iff, Bool.not_false, agrees_set_right_iff, eq_comm]
        refine and_congr_right fun _ => forall₂_congr fun x hx => ?_
        simp only [ih x hx true, Bool.not_true]
      | true =>
        rw [agrees_set_right_iff, Bool.not_true, agrees_set_left_iff, eq_comm]
        refine and_congr_right fun _ => forall₂_congr fun y _ => exists_congr fun x => ?_
        refine and_congr_right fun hx => ?_
        rw [ih x hx false, Bool.not_false]
    | _ => rfl
  | dict ps ih =>
    cases b with
    | dict qs =>
      rw [Bool.eq_iff_iff]
      cases side with
      | false =>
        rw [agrees_dict_left_iff, Bool.not_false, agrees_dict_right_iff, eq_comm]
        refine and_congr_right fun _ => forall₂_congr fun p hp => ?_
        simp only [(ih p hp).1 false, (ih p hp).2 false, Bool.not_false]
      | true =>
        rw [agrees_dict_right_iff, Bool.not_true, agrees_dict_left_iff, eq_comm]
        refine and_congr_right fun _ => forall₂_congr fun q _ => exists_congr fun p => ?_
        refine and_congr_right fun hp => ?_
        rw [(ih p hp).1 true, (ih p hp).2 true, Bool.not_true]
    | _ => rfl

/-! ## Equality of composites -/

section
variable {xs ys : List HostValue} {ps qs : List (HostValue × HostValue)}

theorem agreeAll_iff : agreeAll false xs ys = true ↔
    List.Forall₂ (fun x y => x.same y = true) xs ys := by
  induction xs generalizing ys with
  | nil => cases ys <;> simp [agreeAll]
  | cons x xs ih =>
    cases ys with
    | nil => simp [agreeAll]
    | cons y ys => rw [agreeAll, Bool.and_eq_true, List.forall₂_cons, ih, same]

theorem same_list_iff : (list xs).same (.list ys) = true ↔
    List.Forall₂ (fun x y => x.same y = true) xs ys := agreeAll_iff

theorem same_tuple_iff : (tuple xs).same (.tuple ys) = true ↔
    List.Forall₂ (fun x y => x.same y = true) xs ys := agreeAll_iff

/-- A set equals one with as many members that holds all of its own. The members of the
other one are asked. -/
theorem same_set_iff : (set xs).same (.set ys) = true ↔
    xs.length = ys.length ∧ ∀ x ∈ xs, ∃ y ∈ ys, y.same x = true := by
  rw [same, agrees_set_left_iff]
  simp only [agrees_swap _ true, Bool.not_true, same]

/-- A dict equals one with as many entries that holds all of its own. -/
theorem same_dict_iff : (dict ps).same (.dict qs) = true ↔ ps.length = qs.length ∧
    ∀ p ∈ ps, ∃ q ∈ qs, p.1.same q.1 = true ∧ p.2.same q.2 = true := agrees_dict_left_iff

end

/-! ## Transitivity -/

/-- Values that equal one value are equal, unless a float inside it equals two different
integers inside them. -/
theorem same_trans {a b c : HostValue} (hclear : ¬ Blurs a b c) (hab : a.same b = true)
    (hbc : b.same c = true) : a.same c = true := by
  induction b using inside_induction generalizing a c with
  | none =>
    cases a with
    | none => exact hbc
    | _ => cases hab
  | int n =>
    cases a with
    | int m =>
      obtain rfl : m = n := beq_iff_eq.mp hab
      exact hbc
    | float x =>
      cases c with
      | int k =>
        obtain rfl : n = k := beq_iff_eq.mp hbc
        exact hab
      | float z => exact Word.same_trans ((Word.same_comm _ _).trans hab) hbc
      | _ => cases hbc
    | _ => cases hab
  | float y =>
    cases a with
    | int m =>
      cases c with
      | int k =>
        by_contra hne
        exact hclear (.of_numbers (fun he => hne (beq_iff_eq.mpr he)) hab hbc)
      | float z => exact Word.same_trans hab hbc
      | _ => cases hbc
    | float x =>
      cases c with
      | int k => exact Word.same_trans hbc ((Word.same_comm _ _).trans hab)
      | float z => exact Word.same_trans hab hbc
      | _ => cases hbc
    | _ => cases hab
  | complex re im =>
    cases a with
    | complex re₁ im₁ =>
      cases c with
      | complex re₂ im₂ =>
        obtain ⟨hre, him⟩ := (Bool.and_eq_true _ _).mp hab
        obtain ⟨hre', him'⟩ := (Bool.and_eq_true _ _).mp hbc
        exact (Bool.and_eq_true _ _).mpr ⟨Word.same_trans hre hre', Word.same_trans him him'⟩
      | _ => cases hbc
    | _ => cases hab
  | str s =>
    cases a with
    | str t =>
      obtain rfl : t = s := beq_iff_eq.mp hab
      exact hbc
    | _ => cases hab
  | list ys ih =>
    cases a with
    | list xs =>
      cases c with
      | list zs =>
        refine same_list_iff.mpr (forall₂_trans_of_mem (same_list_iff.mp hab)
          (same_list_iff.mp hbc) fun x hx y hy z hz => ih y hy ?_)
        exact fun h => hclear (h.mono (fun _ => .list hx) (fun _ => .list hy) fun _ => .list hz)
      | _ => cases hbc
    | _ => cases hab
  | tuple ys ih =>
    cases a with
    | tuple xs =>
      cases c with
      | tuple zs =>
        refine same_tuple_iff.mpr (forall₂_trans_of_mem (same_tuple_iff.mp hab)
          (same_tuple_iff.mp hbc) fun x hx y hy z hz => ih y hy ?_)
        exact fun h => hclear (h.mono (fun _ => .tuple hx) (fun _ => .tuple hy) fun _ => .tuple hz)
      | _ => cases hbc
    | _ => cases hab
  | set ys ih =>
    cases a with
    | set xs =>
      cases c with
      | set zs =>
        obtain ⟨hlength, hmembers⟩ := same_set_iff.mp hab
        obtain ⟨hlength', hmembers'⟩ := same_set_iff.mp hbc
        refine same_set_iff.mpr ⟨hlength.trans hlength', fun x hx => ?_⟩
        obtain ⟨y, hy, hyx⟩ := hmembers x hx
        obtain ⟨z, hz, hzy⟩ := hmembers' y hy
        refine ⟨z, hz, ih y hy (fun h => hclear ?_) hzy hyx⟩
        exact h.symm.mono (fun _ => .set hx) (fun _ => .set hy) fun _ => .set hz
      | _ => cases hbc
    | _ => cases hab
  | dict qs ih =>
    cases a with
    | dict ps =>
      cases c with
      | dict rs =>
        obtain ⟨hlength, hentries⟩ := same_dict_iff.mp hab
        obtain ⟨hlength', hentries'⟩ := same_dict_iff.mp hbc
        refine same_dict_iff.mpr ⟨hlength.trans hlength', fun p hp => ?_⟩
        obtain ⟨q, hq, hkey, hvalue⟩ := hentries p hp
        obtain ⟨r, hr, hkey', hvalue'⟩ := hentries' q hq
        refine ⟨r, hr, (ih q hq).1 (fun h => hclear ?_) hkey hkey',
          (ih q hq).2 (fun h => hclear ?_) hvalue hvalue'⟩
        · exact h.mono (fun _ => .key hp) (fun _ => .key hq) fun _ => .key hr
        · exact h.mono (fun _ => .value hp) (fun _ => .value hq) fun _ => .value hr
      | _ => cases hbc
    | _ => cases hab

/-! ## Symmetry -/

theorem distinctAll_iff {vs : List HostValue} :
    distinctAll vs = true ↔ ∀ v ∈ vs, v.distinct = true := by
  induction vs with
  | nil => exact ⟨fun _ => List.forall_mem_nil _, fun _ => rfl⟩
  | cons v vs ih => rw [distinctAll, Bool.and_eq_true, ih, List.forall_mem_cons]

theorem distinctEntries_iff {es : List (HostValue × HostValue)} :
    distinctEntries es = true ↔ ∀ e ∈ es, e.1.distinct = true ∧ e.2.distinct = true := by
  induction es with
  | nil => exact ⟨fun _ => List.forall_mem_nil _, fun _ => rfl⟩
  | cons e es ih =>
    rw [distinctEntries, Bool.and_eq_true, Bool.and_eq_true, ih, List.forall_mem_cons]

/-- Items that lead to items of a list of their length lead to all of them, if no two
lead to one. Only twins may lead to one. -/
theorem covered_of_noTwins {α β : Type} {key : α → HostValue} {R : α → β → Prop} :
    ∀ {xs : List α} {ys : List β}, xs.length = ys.length → noTwins key xs = true →
      (∀ x ∈ xs, ∃ y ∈ ys, R x y) →
      (∀ x ∈ xs, ∀ x' ∈ xs, ∀ y ∈ ys, R x y → R x' y → (key x').same (key x) = true) →
      ∀ y ∈ ys, ∃ x ∈ xs, R x y
  | [], ys, hlength, _, _, _, y, hy => by
    rw [List.length_eq_zero_iff.mp hlength.symm] at hy
    cases hy
  | x :: xs, ys, hlength, hn, hlead, htwins, y, hy => by
    simp only [noTwins, Bool.and_eq_true, List.all_eq_true, Bool.not_eq_true'] at hn
    obtain ⟨y₀, hy₀, hr⟩ := hlead x List.mem_cons_self
    -- The item that `x` leads to is taken out, and the others lead to what is left.
    obtain ⟨front, back, rfl⟩ := List.append_of_mem hy₀
    have hmem : ∀ z, z ∈ front ++ y₀ :: back ↔ z = y₀ ∨ z ∈ front ++ back := fun z => by
      rw [List.mem_append, List.mem_cons, List.mem_append, or_left_comm]
    have hlength' : xs.length = (front ++ back).length := by
      simp only [List.length_cons, List.length_append] at hlength ⊢
      omega
    have hlead' : ∀ x' ∈ xs, ∃ z ∈ front ++ back, R x' z := by
      intro x' hx'
      obtain ⟨z, hz, hr'⟩ := hlead x' (List.mem_cons_of_mem _ hx')
      rcases (hmem z).mp hz with rfl | hz
      · have htwin := htwins x List.mem_cons_self x' (List.mem_cons_of_mem _ hx') z hy₀ hr hr'
        rw [hn.1 x' hx'] at htwin
        cases htwin
      · exact ⟨z, hz, hr'⟩
    rcases (hmem y).mp hy with rfl | hy
    · exact ⟨x, List.mem_cons_self, hr⟩
    · obtain ⟨x', hx', hr'⟩ := covered_of_noTwins hlength' hn.2 hlead'
        (fun x hx x' hx' z hz => htwins x (List.mem_cons_of_mem _ hx) x'
          (List.mem_cons_of_mem _ hx') z ((hmem z).mpr (Or.inr hz))) y hy
      exact ⟨x', List.mem_cons_of_mem _ hx', hr'⟩

section
variable {xs ys : List HostValue} {ps qs : List (HostValue × HostValue)}

/-- A set without twins that equals another one is equal to it from the other side, if
its members are and two that equal one member of the other are equal. -/
theorem same_set_swap (hn : noTwins id xs = true)
    (hswap : ∀ x ∈ xs, ∀ y ∈ ys, x.same y = y.same x)
    (htrans : ∀ x ∈ xs, ∀ x' ∈ xs, ∀ y ∈ ys, x'.same y = true → y.same x = true →
      x'.same x = true)
    (h : (set xs).same (.set ys) = true) : (set ys).same (.set xs) = true := by
  obtain ⟨hlength, hmembers⟩ := same_set_iff.mp h
  have hcovered := covered_of_noTwins (R := fun x y => y.same x = true) hlength hn hmembers
    fun x hx x' hx' y hy hr hr' => htrans x hx x' hx' y hy ((hswap x' hx' y hy).trans hr') hr
  refine same_set_iff.mpr ⟨hlength.symm, fun y hy => ?_⟩
  obtain ⟨x, hx, hyx⟩ := hcovered y hy
  exact ⟨x, hx, (hswap x hx y hy).trans hyx⟩

/-- A dict without twins that equals another one is equal to it from the other side, if
its keys and values are and two keys that equal one key of the other are equal. -/
theorem same_dict_swap (hn : noTwins Prod.fst ps = true)
    (hkeys : ∀ p ∈ ps, ∀ q ∈ qs, p.1.same q.1 = q.1.same p.1)
    (hvalues : ∀ p ∈ ps, ∀ q ∈ qs, p.2.same q.2 = q.2.same p.2)
    (htrans : ∀ p ∈ ps, ∀ p' ∈ ps, ∀ q ∈ qs, p'.1.same q.1 = true → q.1.same p.1 = true →
      p'.1.same p.1 = true)
    (h : (dict ps).same (.dict qs) = true) : (dict qs).same (.dict ps) = true := by
  obtain ⟨hlength, hentries⟩ := same_dict_iff.mp h
  have hcovered := covered_of_noTwins
    (R := fun p q => p.1.same q.1 = true ∧ p.2.same q.2 = true) hlength hn hentries
    fun p hp p' hp' q hq hr hr' =>
      htrans p hp p' hp' q hq hr'.1 ((hkeys p hp q hq).symm.trans hr.1)
  refine same_dict_iff.mpr ⟨hlength.symm, fun q hq => ?_⟩
  obtain ⟨p, hp, hkey, hvalue⟩ := hcovered q hq
  exact ⟨p, hp, (hkeys p hp q hq).symm.trans hkey, (hvalues p hp q hq).symm.trans hvalue⟩

end

/-- Items that are equal from both sides or from none make lists that are. -/
theorem forall₂_same_comm {xs ys : List HostValue}
    (hswap : ∀ x ∈ xs, ∀ y ∈ ys, x.same y = y.same x) :
    List.Forall₂ (fun x y => x.same y = true) xs ys ↔
      List.Forall₂ (fun y x => y.same x = true) ys xs :=
  ⟨fun h => forall₂_swap_of_mem h fun x hx y hy => (hswap x hx y hy).symm.trans,
    fun h => forall₂_swap_of_mem h fun y hy x hx => (hswap x hx y hy).trans⟩

/-- Without duplicates, and without a float that equals two different integers, two
values are equal from both sides or from none. -/
theorem same_comm_of_clear {a b : HostValue} (ha : a.distinct = true) (hb : b.distinct = true)
    (hab : ¬ Blurs a b a) (hba : ¬ Blurs b a b) : a.same b = b.same a := by
  induction a using inside_induction generalizing b with
  | none | int _ | float _ | complex _ _ | str _ =>
    -- The side that is asked does not matter where there is nothing inside.
    exact (agrees_swap _ false b).trans (by cases b <;> rfl)
  | list xs ih =>
    cases b with
    | list ys =>
      have hswap : ∀ x ∈ xs, ∀ y ∈ ys, x.same y = y.same x := fun x hx y hy =>
        ih x hx (distinctAll_iff.mp ha x hx) (distinctAll_iff.mp hb y hy)
          (fun h => hab (h.mono (fun _ => .list hx) (fun _ => .list hy) fun _ => .list hx))
          fun h => hba (h.mono (fun _ => .list hy) (fun _ => .list hx) fun _ => .list hy)
      rw [Bool.eq_iff_iff, same_list_iff, same_list_iff]
      exact forall₂_same_comm hswap
    | _ => rfl
  | tuple xs ih =>
    cases b with
    | tuple ys =>
      have hswap : ∀ x ∈ xs, ∀ y ∈ ys, x.same y = y.same x := fun x hx y hy =>
        ih x hx (distinctAll_iff.mp ha x hx) (distinctAll_iff.mp hb y hy)
          (fun h => hab (h.mono (fun _ => .tuple hx) (fun _ => .tuple hy) fun _ => .tuple hx))
          fun h => hba (h.mono (fun _ => .tuple hy) (fun _ => .tuple hx) fun _ => .tuple hy)
      rw [Bool.eq_iff_iff, same_tuple_iff, same_tuple_iff]
      exact forall₂_same_comm hswap
    | _ => rfl
  | set xs ih =>
    cases b with
    | set ys =>
      obtain ⟨hxs, hnx⟩ := (Bool.and_eq_true _ _).mp ha
      obtain ⟨hys, hny⟩ := (Bool.and_eq_true _ _).mp hb
      have hswap : ∀ x ∈ xs, ∀ y ∈ ys, x.same y = y.same x := fun x hx y hy =>
        ih x hx (distinctAll_iff.mp hxs x hx) (distinctAll_iff.mp hys y hy)
          (fun h => hab (h.mono (fun _ => .set hx) (fun _ => .set hy) fun _ => .set hx))
          fun h => hba (h.mono (fun _ => .set hy) (fun _ => .set hx) fun _ => .set hy)
      rw [Bool.eq_iff_iff]
      constructor
      · exact same_set_swap hnx hswap fun x hx x' hx' y hy => same_trans fun h =>
          hab (h.mono (fun _ => .set hx') (fun _ => .set hy) fun _ => .set hx)
      · exact same_set_swap hny (fun y hy x hx => (hswap x hx y hy).symm)
          fun y hy y' hy' x hx => same_trans fun h =>
            hba (h.mono (fun _ => .set hy') (fun _ => .set hx) fun _ => .set hy)
    | _ => rfl
  | dict ps ih =>
    cases b with
    | dict qs =>
      obtain ⟨hps, hnp⟩ := (Bool.and_eq_true _ _).mp ha
      obtain ⟨hqs, hnq⟩ := (Bool.and_eq_true _ _).mp hb
      have hkeys : ∀ p ∈ ps, ∀ q ∈ qs, p.1.same q.1 = q.1.same p.1 := fun p hp q hq =>
        (ih p hp).1 (distinctEntries_iff.mp hps p hp).1 (distinctEntries_iff.mp hqs q hq).1
          (fun h => hab (h.mono (fun _ => .key hp) (fun _ => .key hq) fun _ => .key hp))
          fun h => hba (h.mono (fun _ => .key hq) (fun _ => .key hp) fun _ => .key hq)
      have hvalues : ∀ p ∈ ps, ∀ q ∈ qs, p.2.same q.2 = q.2.same p.2 := fun p hp q hq =>
        (ih p hp).2 (distinctEntries_iff.mp hps p hp).2 (distinctEntries_iff.mp hqs q hq).2
          (fun h => hab (h.mono (fun _ => .value hp) (fun _ => .value hq) fun _ => .value hp))
          fun h => hba (h.mono (fun _ => .value hq) (fun _ => .value hp) fun _ => .value hq)
      rw [Bool.eq_iff_iff]
      constructor
      · exact same_dict_swap hnp hkeys hvalues fun p hp p' hp' q hq => same_trans fun h =>
          hab (h.mono (fun _ => .key hp') (fun _ => .key hq) fun _ => .key hp)
      · exact same_dict_swap hnq (fun q hq p hp => (hkeys p hp q hq).symm)
          (fun q hq p hp => (hvalues p hp q hq).symm) fun q hq q' hq' p hp => same_trans fun h =>
            hba (h.mono (fun _ => .key hq') (fun _ => .key hp) fun _ => .key hq)
    | _ => rfl

/-! ## The relation on all values -/

/-- Values that equal one value are equal, or a float inside it equals two different
integers inside them. Duplicates do not matter. -/
theorem same_trans_or_blurs {a b c : HostValue} (hab : a.same b = true) (hbc : b.same c = true) :
    a.same c = true ∨ Blurs a b c :=
  or_iff_not_imp_right.mpr fun hclear => same_trans hclear hab hbc

theorem same_trans_or_blurs_nested :
    let one : HostValue := .float (Word.ofBits 0x3ff0000000000000)
    let a : HostValue := .set [.list [.int 1, .str "a"], .int 0]
    let b : HostValue := .set [.float (Word.ofParts true 0), .list [one, .str "a"]]
    let c : HostValue := .set [.list [.int 1, .str "a"], .float Word.zero]
    a.same b = true ∧ b.same c = true ∧ (a.same c = true ∨ Blurs a b c) := by
  intro one a b c
  have hab : a.same b = true := by decide +kernel
  have hbc : b.same c = true := by decide +kernel
  exact ⟨hab, hbc, same_trans_or_blurs hab hbc⟩

/-- Equality is not transitive: `2 ^ 53` and the integer after it equal one float. -/
theorem same_not_transitive : ¬ ∀ a b c : HostValue, a.distinct = true → b.distinct = true →
    c.distinct = true → a.same b = true → b.same c = true → a.same c = true := by
  intro h
  let a : HostValue := .int 9007199254740992
  let b : HostValue := .float (Word.ofBits 0x4340000000000000)
  let c : HostValue := .int 9007199254740993
  have hac : a.same c = true := h a b c rfl rfl rfl (by decide +kernel) (by decide +kernel)
  have hne : a.same c = false := by decide
  rw [hne] at hac
  cases hac

/-- Two values without duplicates are equal from both sides or from none, or a float
inside one equals two different integers inside the other. -/
theorem same_comm_or_blurs {a b : HostValue} (ha : a.distinct = true) (hb : b.distinct = true) :
    a.same b = b.same a ∨ Blurs a b a ∨ Blurs b a b := by
  by_cases hab : Blurs a b a
  · exact Or.inr (Or.inl hab)
  · by_cases hba : Blurs b a b
    · exact Or.inr (Or.inr hba)
    · exact Or.inl (same_comm_of_clear ha hb hab hba)

theorem same_comm_or_blurs_nested :
    let two : HostValue := .float (Word.ofBits 0x4000000000000000)
    let a : HostValue := .dict [(.str "k", .set [.int 1, two]), (.int 2, .none)]
    let b : HostValue := .dict [(two, .none), (.str "k", .set [.int 2, .int 1])]
    a.distinct = true ∧ b.distinct = true ∧ a.same b = true ∧
      (a.same b = b.same a ∨ Blurs a b a ∨ Blurs b a b) := by
  intro two a b
  have ha : a.distinct = true := by decide +kernel
  have hb : b.distinct = true := by decide +kernel
  exact ⟨ha, hb, by decide +kernel, same_comm_or_blurs ha hb⟩

/-- A float blurs two integers: both equal the first member of `b`, while the second member of
`b` equals none. -/
example :
    let a : HostValue := .set [.int 9007199254740992, .int 9007199254740993]
    let b : HostValue := .set [.float (Word.ofBits 0x4340000000000000), .int 5]
    a.distinct = true ∧ b.distinct = true ∧ a.same b = true ∧ b.same a = false := by
  decide +kernel

/-- Equality is not symmetric: both members of the set that holds 1 twice are members of
the set of 1 and 2, but 2 is no member of the former. -/
theorem same_not_symmetric : ¬ ∀ a b : HostValue, a.same b = true ↔ b.same a = true := by
  intro h
  let twice : HostValue := .set [.int 1, .int 1]
  let both : HostValue := .set [.int 1, .int 2]
  have hback : both.same twice = true := (h twice both).mp (by decide)
  have hne : both.same twice = false := by decide
  rw [hne] at hback
  cases hback

end HostValue

end WrapGen
