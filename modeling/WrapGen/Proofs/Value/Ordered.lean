import Mathlib.Data.List.Induction
import Mathlib.Data.List.Nodup
import Mathlib.Order.Bounds.Defs
import WrapGen.Proofs.Value.Order
import WrapGen.Value.Ordered

/-!
# Ordered containers hold each key once

What the operations of `Ordered` do to the keys of a list, and to what is found
under a key. That something is found does not depend on the list being sorted;
that each key is there once does, and `Sorted` is kept by every operation. A list that
is put in order is determined by what is found in it, and its keys do not depend on the
order of insertion (`ofList_eq_iff`, `map_ofList_perm`).
-/
namespace WrapGen.Ordered

variable {α : Type} {key : α → Datum}

/-- The keys of a list rise from item to item. -/
def Sorted (key : α → Datum) (xs : List α) : Prop := xs.Pairwise fun x y => key x < key y

/-! ## Finding -/

theorem find?_cons (k : Datum) (x : α) (xs : List α) :
    find? key k (x :: xs) = if k = key x then some x else find? key k xs := by
  unfold find?
  rw [List.find?_cons]
  by_cases h : k = key x
  · rw [if_pos h, h, Datum.compare_self]
    rfl
  · rw [if_neg h]
    have hne : (k.compare (key x) == .eq) = false := by
      rw [beq_eq_false_iff_ne]
      exact fun he => h (Datum.eq_of_compare he)
    rw [hne]

theorem find?_insert (k : Datum) (x : α) : ∀ xs : List α,
    find? key k (insert key x xs) = if k = key x then some x else find? key k xs
  | [] => find?_cons k x []
  | y :: ys => by
    unfold insert
    cases ho : (key x).compare (key y) with
    | lt => exact find?_cons k x (y :: ys)
    | eq =>
      have hk : key x = key y := Datum.eq_of_compare ho
      show find? key k (x :: ys) = _
      rw [find?_cons, find?_cons, ← hk]
      split <;> rfl
    | gt =>
      have hne : key x ≠ key y := by
        intro he
        rw [he, Datum.compare_self] at ho
        cases ho
      show find? key k (y :: insert key x ys) = _
      rw [find?_cons, find?_insert k x ys, find?_cons]
      by_cases hy : k = key y
      · rw [if_pos hy, if_neg (fun h => hne (h.symm.trans hy)), if_pos hy]
      · rw [if_neg hy, if_neg hy]

theorem find?_erase (k l : Datum) : ∀ xs : List α,
    find? key k (erase key l xs) = if k = l then none else find? key k xs
  | [] => by
    unfold erase find?
    split <;> rfl
  | x :: xs => by
    have ih := find?_erase k l xs
    unfold erase at ih ⊢
    rw [List.filter_cons, find?_cons]
    by_cases hx : l = key x
    · rw [hx, Datum.compare_self]
      rw [hx] at ih
      simp only [bne_self_eq_false, Bool.false_eq_true, if_false]
      rw [ih]
      by_cases hk : k = key x
      · rw [if_pos hk, if_pos hk]
      · rw [if_neg hk, if_neg hk, if_neg hk]
    · have hne : (l.compare (key x) != .eq) = true := by
        rw [bne_iff_ne]
        exact fun he => hx (Datum.eq_of_compare he)
      rw [if_pos hne, find?_cons, ih]
      by_cases hk : k = key x
      · rw [if_pos hk, if_pos hk, if_neg (fun h => hx (h.symm.trans hk))]
      · rw [if_neg hk, if_neg hk]

variable (key) in
theorem find?_isSome_iff (k : Datum) : ∀ xs : List α,
    (find? key k xs).isSome = true ↔ k ∈ xs.map key
  | [] => by simp [find?]
  | x :: xs => by
    rw [find?_cons, List.map_cons, List.mem_cons]
    by_cases h : k = key x
    · simp [h]
    · simp [h, find?_isSome_iff k xs]

theorem contains_iff {k : Datum} {xs : List α} : contains key k xs = true ↔ k ∈ xs.map key :=
  find?_isSome_iff key k xs

/-! ## Keys -/

/-- Inserting looks at keys only. -/
theorem map_insert (x : α) : ∀ xs : List α,
    (insert key x xs).map key = insert id (key x) (xs.map key)
  | [] => rfl
  | y :: ys => by
    unfold insert
    simp only [List.map_cons, id]
    cases (key x).compare (key y) with
    | lt => rfl
    | eq => rfl
    | gt => rw [List.map_cons, map_insert x ys]

theorem mem_insert {k l : Datum} {ks : List Datum} : k ∈ insert id l ks ↔ k = l ∨ k ∈ ks := by
  have h := find?_isSome_iff id k (insert id l ks)
  rw [List.map_id] at h
  rw [← h, find?_insert]
  by_cases hk : k = l
  · simp [hk]
  · have h' := find?_isSome_iff id k ks
    rw [List.map_id] at h'
    simp [hk, h']

theorem mem_erase {k l : Datum} {ks : List Datum} : k ∈ erase id l ks ↔ k ≠ l ∧ k ∈ ks := by
  unfold erase
  rw [List.mem_filter, bne_iff_ne, and_comm]
  constructor
  · rintro ⟨h, hm⟩
    exact ⟨fun he => h (by rw [he]; exact Datum.compare_self l), hm⟩
  · rintro ⟨h, hm⟩
    exact ⟨fun he => h (Datum.eq_of_compare he).symm, hm⟩

/-- An insertion brings in nothing but the item. -/
theorem mem_of_mem_insert {x y : α} : ∀ {xs : List α}, y ∈ insert key x xs → y = x ∨ y ∈ xs
  | [], h => Or.inl (List.mem_singleton.mp h)
  | z :: zs, h => by
    unfold insert at h
    split at h
    · exact List.mem_cons.mp h
    · exact (List.mem_cons.mp h).imp_right (List.mem_cons_of_mem z)
    · rcases List.mem_cons.mp h with rfl | h
      · exact Or.inr List.mem_cons_self
      · exact (mem_of_mem_insert h).imp_right (List.mem_cons_of_mem z)

/-- An ordered list has items of the list it is made from. -/
theorem mem_of_mem_ofList {y : α} {xs : List α} (h : y ∈ ofList key xs) : y ∈ xs := by
  have hfold : ∀ (xs acc : List α), y ∈ xs.foldl (fun acc x => insert key x acc) acc →
      y ∈ acc ∨ y ∈ xs := by
    intro xs
    induction xs with
    | nil => exact fun _ hy => Or.inl hy
    | cons x xs ih =>
      intro acc hy
      rcases ih _ hy with hy | hy
      · rcases mem_of_mem_insert hy with rfl | hy
        · exact Or.inr List.mem_cons_self
        · exact Or.inl hy
      · exact Or.inr (List.mem_cons_of_mem x hy)
  exact (hfold xs [] h).resolve_left List.not_mem_nil

/-- An ordered list has all keys of the list it is made from. -/
theorem mem_ofList_keys {k : Datum} {xs : List α} :
    k ∈ (ofList key xs).map key ↔ k ∈ xs.map key := by
  have hfold : ∀ xs acc : List α, k ∈ (xs.foldl (fun acc x => insert key x acc) acc).map key ↔
      k ∈ acc.map key ∨ k ∈ xs.map key := by
    intro xs
    induction xs with
    | nil => simp
    | cons x xs ih =>
      intro acc
      rw [List.foldl_cons, ih, map_insert, mem_insert, List.map_cons, List.mem_cons,
        or_assoc, or_left_comm]
  exact (hfold xs []).trans (or_iff_right List.not_mem_nil)

/-- An ordered list of keys has the keys of the list it is made from. -/
theorem mem_ofList {k : Datum} {xs : List Datum} : k ∈ ofList id xs ↔ k ∈ xs := by
  have hkeys : k ∈ (ofList id xs).map id ↔ k ∈ xs.map id := mem_ofList_keys
  rwa [List.map_id, List.map_id] at hkeys

/-- Of several items with one key the last is found. -/
theorem find?_ofList (k : Datum) (xs : List α) :
    find? key k (ofList key xs) = find? key k xs.reverse := by
  induction xs using List.reverseRecOn with
  | nil => rfl
  | append_singleton xs x ih =>
    have hlast : ofList key (xs ++ [x]) = insert key x (ofList key xs) := List.foldl_concat ..
    rw [hlast, find?_insert, ih, List.reverse_append, List.reverse_singleton, List.singleton_append,
      find?_cons]

/-- Inserting again changes nothing. -/
theorem insert_insert (x : α) : ∀ xs : List α,
    insert key x (insert key x xs) = insert key x xs
  | [] => by
    show insert key x [x] = [x]
    rw [insert, Datum.compare_self]
  | y :: ys => by
    have hself : ∀ zs, insert key x (x :: zs) = x :: zs := by
      intro zs
      rw [insert, Datum.compare_self]
    rw [insert]
    cases ho : (key x).compare (key y) with
    | lt => exact hself (y :: ys)
    | eq => exact hself ys
    | gt =>
      show insert key x (y :: insert key x ys) = y :: insert key x ys
      rw [insert, ho, insert_insert x ys]

/-! ## Each key once -/

theorem sorted_iff_map {xs : List α} : Sorted key xs ↔ Sorted id (xs.map key) := by
  unfold Sorted
  rw [List.pairwise_map]
  rfl

theorem sorted_insert_keys {l : Datum} : ∀ {ks : List Datum}, Sorted id ks →
    Sorted id (insert id l ks)
  | [], _ => List.pairwise_singleton _ _
  | k :: ks, h => by
    obtain ⟨hk, hks⟩ := List.pairwise_cons.mp h
    unfold insert
    cases ho : (id l).compare (id k) with
    | lt =>
      refine List.pairwise_cons.mpr ⟨?_, h⟩
      intro m hm
      rcases List.mem_cons.mp hm with rfl | hm
      · exact ho
      · exact lt_trans (a := l) ho (hk m hm)
    | eq =>
      have he : l = k := Datum.eq_of_compare ho
      show Sorted id (l :: ks)
      rw [he]
      exact h
    | gt =>
      have hlt : k < l := by
        have hs := Datum.compare_swap l k
        rw [show l.compare k = .gt from ho] at hs
        exact hs.symm
      refine List.pairwise_cons.mpr ⟨?_, sorted_insert_keys hks⟩
      intro m hm
      rcases mem_insert.mp hm with rfl | hm
      · exact hlt
      · exact hk m hm

theorem Sorted.insert {xs : List α} (h : Sorted key xs) (x : α) : Sorted key (insert key x xs) := by
  rw [sorted_iff_map, map_insert]
  exact sorted_insert_keys (sorted_iff_map.mp h)

theorem Sorted.erase {xs : List α} (h : Sorted key xs) (k : Datum) :
    Sorted key (erase key k xs) :=
  List.Pairwise.filter _ h

theorem sorted_ofList (xs : List α) : Sorted key (ofList key xs) := by
  have hfold : ∀ (xs acc : List α), Sorted key acc →
      Sorted key (xs.foldl (fun acc x => Ordered.insert key x acc) acc) := by
    intro xs
    induction xs with
    | nil => exact fun _ h => h
    | cons x xs ih => exact fun acc h => ih _ (h.insert x)
  exact hfold xs [] List.Pairwise.nil

/-- An item whose key lies after all others comes last. -/
theorem insert_eq_append {x : α} : ∀ {xs : List α}, (∀ y ∈ xs, key y < key x) →
    Ordered.insert key x xs = xs ++ [x]
  | [], _ => rfl
  | y :: ys, h => by
    obtain ⟨hy, hys⟩ := List.forall_mem_cons.mp h
    have hgt : (key x).compare (key y) = .gt := by
      rw [← Datum.compare_swap, Datum.lt_iff.mp hy]
      rfl
    rw [Ordered.insert, hgt]
    show y :: Ordered.insert key x ys = y :: (ys ++ [x])
    rw [insert_eq_append hys]

/-- A list in order is its own ordered list. -/
theorem ofList_eq_self {xs : List α} (h : Sorted key xs) : ofList key xs = xs := by
  have hfold : ∀ xs acc : List α, Sorted key (acc ++ xs) →
      xs.foldl (fun acc x => Ordered.insert key x acc) acc = acc ++ xs := by
    intro xs
    induction xs with
    | nil => simp
    | cons x xs ih =>
      intro acc hs
      have hlast : ∀ y ∈ acc, key y < key x := fun y hy =>
        (List.pairwise_append.mp hs).2.2 y hy x List.mem_cons_self
      rw [List.append_cons] at hs ⊢
      rw [List.foldl_cons, insert_eq_append hlast]
      exact ih (acc ++ [x]) hs
  exact hfold xs [] h

theorem Sorted.nodup {xs : List α} (h : Sorted key xs) : (xs.map key).Nodup := by
  rw [sorted_iff_map] at h
  exact h.imp fun hlt => ne_of_lt hlt

/-! ## The order of insertion -/

theorem Sorted.find?_of_mem {x : α} : ∀ {xs : List α}, Sorted key xs → x ∈ xs →
    find? key (key x) xs = some x
  | y :: ys, h, hx => by
    obtain ⟨hy, hys⟩ := List.pairwise_cons.mp h
    rw [find?_cons]
    rcases List.mem_cons.mp hx with rfl | hx
    · rw [if_pos rfl]
    · rw [if_neg (ne_of_gt (hy x hx)), Sorted.find?_of_mem hys hx]

/-- Lists in order that hold the same under every key are the same list. -/
theorem Sorted.eq_of_find? {xs ys : List α} (hx : Sorted key xs) (hy : Sorted key ys)
    (h : ∀ k, find? key k xs = find? key k ys) : xs = ys := by
  have hmem : ∀ {us vs : List α}, Sorted key us → (∀ k, find? key k us = find? key k vs) →
      ∀ x ∈ us, x ∈ vs := by
    intro us vs hu hk x hx
    have hfound := hk (key x)
    rw [hu.find?_of_mem hx] at hfound
    exact List.mem_of_find?_eq_some hfound.symm
  have hperm : xs.Perm ys := (List.perm_ext_iff_of_nodup hx.nodup.of_map hy.nodup.of_map).mpr
    fun x => ⟨hmem hx h x, hmem hy (fun k => (h k).symm) x⟩
  exact hperm.eq_of_pairwise (fun _ _ _ _ hlt hgt => absurd hgt (lt_asymm hlt)) hx hy

/-- Two orders of insertion make the same list exactly if they end with the same item for
every key. -/
theorem ofList_eq_iff {xs ys : List α} : ofList key xs = ofList key ys ↔
    ∀ k, find? key k xs.reverse = find? key k ys.reverse := by
  constructor
  · intro h k
    rw [← find?_ofList, ← find?_ofList, h]
  · intro h
    refine (sorted_ofList xs).eq_of_find? (sorted_ofList ys) fun k => ?_
    rw [find?_ofList, find?_ofList, h k]

/-- The keys of a list do not depend on the order of insertion. -/
theorem map_ofList_perm {xs ys : List α} (h : xs.Perm ys) :
    (ofList key xs).map key = (ofList key ys).map key := by
  have hkeys : ((ofList key xs).map key).Perm ((ofList key ys).map key) := by
    refine (List.perm_ext_iff_of_nodup (sorted_ofList xs).nodup (sorted_ofList ys).nodup).mpr
      fun k => ?_
    rw [mem_ofList_keys, mem_ofList_keys, (h.map key).mem_iff]
  exact hkeys.eq_of_pairwise (fun _ _ _ _ hlt hgt => absurd hgt (lt_asymm hlt))
    (sorted_iff_map.mp (sorted_ofList xs)) (sorted_iff_map.mp (sorted_ofList ys))

/-! ## Items with keys of their own -/

theorem insert_perm {x : α} : ∀ {xs : List α}, key x ∉ xs.map key →
    (Ordered.insert key x xs).Perm (x :: xs)
  | [], _ => .refl _
  | y :: ys, h => by
    rw [List.map_cons, List.mem_cons, not_or] at h
    obtain ⟨hne, hys⟩ := h
    rw [Ordered.insert]
    cases ho : (key x).compare (key y) with
    | lt => exact .refl _
    | eq => exact absurd (Datum.eq_of_compare ho) hne
    | gt => exact ((insert_perm hys).cons y).trans (.swap x y ys)

/-- Items with distinct keys are all held, only in order. -/
theorem ofList_perm {xs : List α} (h : (xs.map key).Nodup) : (ofList key xs).Perm xs := by
  induction xs using List.reverseRecOn with
  | nil => exact .refl _
  | append_singleton xs x ih =>
    rw [List.map_append, List.nodup_append_comm] at h
    obtain ⟨hx, hxs⟩ := List.nodup_cons.mp h
    have hordered : (ofList key xs).Perm xs := ih hxs
    have hnew : key x ∉ (ofList key xs).map key := fun hm => hx ((hordered.map key).mem_iff.mp hm)
    have hlast : ofList key (xs ++ [x]) = Ordered.insert key x (ofList key xs) :=
      List.foldl_concat ..
    rw [hlast]
    exact (insert_perm hnew).trans ((hordered.cons x).trans (List.perm_append_singleton x xs).symm)

/-! ## The key after another -/

theorem forall_not_of_firstAfter {last : Option Datum} {ks : List Datum}
    (h : firstAfter id last ks = none) : ∀ k ∈ ks, ¬ ∀ l ∈ last, l < k := by
  intro k hk hl
  cases last with
  | none =>
    rw [List.head?_eq_none_iff.mp h] at hk
    cases hk
  | some l =>
    have := List.find?_eq_none.mp h k hk
    rw [show l.compare (id k) = .lt from Datum.lt_iff.mp (hl l rfl)] at this
    exact this rfl

theorem mem_of_firstAfter {last : Option Datum} {x : α} {xs : List α}
    (h : firstAfter key last xs = some x) : x ∈ xs := by
  cases last with
  | none => exact List.mem_of_head? h
  | some k => exact List.mem_of_find?_eq_some h

/-- In a list in order the first key after `last` is the least one. -/
theorem isLeast_of_firstAfter {last : Option Datum} {k : Datum} : ∀ {ks : List Datum},
    Sorted id ks → firstAfter id last ks = some k → IsLeast {m | m ∈ ks ∧ ∀ l ∈ last, l < m} k
  | [], _, h => by
    cases last <;> cases h
  | m :: ks, hs, h => by
    obtain ⟨hm, hs⟩ := List.pairwise_cons.mp hs
    have hleast : (∀ l ∈ last, l < m) → k = m →
        IsLeast {n | n ∈ m :: ks ∧ ∀ l ∈ last, l < n} k := by
      rintro hl rfl
      refine ⟨⟨List.mem_cons_self, hl⟩, ?_⟩
      rintro n ⟨hn, -⟩
      rcases List.mem_cons.mp hn with rfl | hn
      · exact le_refl _
      · exact le_of_lt (hm n hn)
    cases last with
    | none =>
      cases h
      exact hleast (by simp) rfl
    | some l =>
      by_cases hlt : l < m
      · have hfound : firstAfter id (some l) (m :: ks) = some m := by
          unfold firstAfter
          dsimp only
          rw [List.find?_cons, show l.compare (id m) = .lt from Datum.lt_iff.mp hlt]
          rfl
        rw [hfound] at h
        cases h
        exact hleast (by simpa using hlt) rfl
      · have hskip : firstAfter id (some l) (m :: ks) = firstAfter id (some l) ks := by
          unfold firstAfter
          refine List.find?_cons_of_neg ?_
          rw [beq_iff_eq]
          exact hlt
        rw [hskip] at h
        obtain ⟨⟨hk, hl⟩, hle⟩ := isLeast_of_firstAfter hs h
        refine ⟨⟨List.mem_cons_of_mem _ hk, hl⟩, ?_⟩
        rintro n ⟨hn, hn'⟩
        rcases List.mem_cons.mp hn with rfl | hn
        · exact absurd (hn' l rfl) hlt
        · exact hle ⟨hn, hn'⟩

end WrapGen.Ordered
