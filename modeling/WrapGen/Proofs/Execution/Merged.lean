import WrapGen.Value.Host

/-!
# Filling host sets and dicts one by one

A host set takes a member only if it has no equal one yet, and a host dict
that is assigned under a key it already has keeps the old key and takes the
new value. Equality is that of the host language (`HostValue.same`), where the
two zeros are equal and a NaN equals nothing.

`merged` fills every set and dict inside a value that way, from the innermost
outwards. Main statement: `merged_eq_self_iff`, a value stays as it is exactly
if no set and no dict inside it has two members or keys that are equal.
-/
namespace WrapGen.HostValue

variable {α : Type}

/-- Puts an item behind the others, or lets it join the first whose key equals
its own. -/
def place (key : α → HostValue) (join : α → α → α) (x : α) : List α → List α
  | [] => [x]
  | y :: ys => if (key x).same (key y) then join y x :: ys else y :: place key join x ys

/-- The items of a list placed in order. -/
def placeAll (key : α → HostValue) (join : α → α → α) (xs : List α) : List α :=
  xs.foldl (fun acc x => place key join x acc) []

/-- Of two equal members of a set the first stays. -/
def keepFirst (old _new : HostValue) : HostValue := old

/-- Of two entries of a dict with equal keys the first key and the second value stay. -/
def keepKey (old new : HostValue × HostValue) : HostValue × HostValue := (old.1, new.2)

/-- Whether no item has a key equal to that of an earlier one. -/
def noTwins (key : α → HostValue) : List α → Bool
  | [] => true
  | x :: xs => xs.all (fun y => !(key y).same (key x)) && noTwins key xs

mutual

/-- The value with every set and dict in it filled one by one. -/
def merged : HostValue → HostValue
  | .none => .none
  | .int n => .int n
  | .float x => .float x
  | .complex re im => .complex re im
  | .str s => .str s
  | .list items => .list (mergedAll items)
  | .tuple items => .tuple (mergedAll items)
  | .set items => .set (placeAll id keepFirst (mergedAll items))
  | .dict entries => .dict (placeAll Prod.fst keepKey (mergedEntries entries))
termination_by structural v => v

/-- `merged` on every value of a list. -/
def mergedAll : List HostValue → List HostValue
  | [] => []
  | v :: vs => v.merged :: mergedAll vs
termination_by structural vs => vs

/-- `merged` on both parts of every entry of a list. -/
def mergedEntries : List (HostValue × HostValue) → List (HostValue × HostValue)
  | [] => []
  | (k, v) :: es => (k.merged, v.merged) :: mergedEntries es
termination_by structural es => es

end

mutual

/-- Whether no set and no dict inside a value has two equal members or keys. -/
def distinct : HostValue → Bool
  | .none | .int _ | .float _ | .complex _ _ | .str _ => true
  | .list items => distinctAll items
  | .tuple items => distinctAll items
  | .set items => distinctAll items && noTwins id items
  | .dict entries => distinctEntries entries && noTwins Prod.fst entries
termination_by structural v => v

/-- `distinct` of every value of a list. -/
def distinctAll : List HostValue → Bool
  | [] => true
  | v :: vs => v.distinct && distinctAll vs
termination_by structural vs => vs

/-- `distinct` of both parts of every entry of a list. -/
def distinctEntries : List (HostValue × HostValue) → Bool
  | [] => true
  | (k, v) :: es => k.distinct && v.distinct && distinctEntries es
termination_by structural es => es

end

/-! ## Placing without twins -/

section
variable {key : α → HostValue} {join : α → α → α}

theorem place_of_new {x : α} {acc : List α} (h : ∀ y ∈ acc, (key x).same (key y) = false) :
    place key join x acc = acc ++ [x] := by
  induction acc with
  | nil => rfl
  | cons y ys ih =>
    have hy := h y (by simp)
    rw [place, hy, if_neg (by simp), ih (fun z hz => h z (by simp [hz]))]
    rfl

variable (key join) in
theorem length_place_le (x : α) (acc : List α) :
    (place key join x acc).length ≤ acc.length + 1 := by
  induction acc with
  | nil => exact Nat.le_refl _
  | cons y ys ih =>
    unfold place
    split
    · simp
    · simp only [List.length_cons]; omega

/-- An item that makes the list longer had no equal one there. -/
theorem new_of_length_place {x : α} {acc : List α}
    (h : (place key join x acc).length = acc.length + 1) :
    ∀ y ∈ acc, (key x).same (key y) = false := by
  induction acc with
  | nil => simp
  | cons y ys ih =>
    unfold place at h
    split at h
    · simp at h
    · rename_i hy
      simp only [List.length_cons, Nat.add_right_cancel_iff] at h
      intro z hz
      rcases List.mem_cons.mp hz with rfl | hz
      · simpa using hy
      · exact ih h z hz

theorem foldl_place_of_new : ∀ (xs acc : List α),
    (∀ x ∈ xs, ∀ y ∈ acc, (key x).same (key y) = false) → noTwins key xs = true →
    xs.foldl (fun acc x => place key join x acc) acc = acc ++ xs
  | [], acc, _, _ => by simp
  | x :: xs, acc, h, hn => by
    simp only [noTwins, Bool.and_eq_true, List.all_eq_true, Bool.not_eq_true'] at hn
    rw [List.foldl_cons, place_of_new (h x (by simp))]
    rw [foldl_place_of_new xs (acc ++ [x]) ?_ hn.2]
    · simp
    · intro z hz y hy
      rcases List.mem_append.mp hy with hy | hy
      · exact h z (by simp [hz]) y hy
      · rw [List.mem_singleton.mp hy]; exact hn.1 z hz

variable (key join) in
theorem length_foldl_place_le : ∀ (xs acc : List α),
    (xs.foldl (fun acc x => place key join x acc) acc).length ≤ acc.length + xs.length
  | [], acc => by simp
  | x :: xs, acc => by
    have h1 := length_foldl_place_le xs (place key join x acc)
    have h2 := length_place_le key join x acc
    simp only [List.foldl_cons, List.length_cons] at h1 ⊢
    omega

/-- A list that keeps its length when it is placed has no twins. -/
theorem noTwins_of_length_foldl : ∀ (xs acc : List α),
    (xs.foldl (fun acc x => place key join x acc) acc).length = acc.length + xs.length →
    noTwins key xs = true ∧ ∀ x ∈ xs, ∀ y ∈ acc, (key x).same (key y) = false
  | [], acc, _ => by simp [noTwins]
  | x :: xs, acc, h => by
    have h1 := length_foldl_place_le key join xs (place key join x acc)
    have h2 := length_place_le key join x acc
    simp only [List.foldl_cons, List.length_cons] at h
    have hl : (place key join x acc).length = acc.length + 1 := by omega
    have hx := new_of_length_place hl
    rw [place_of_new hx] at h
    obtain ⟨hn, hacc⟩ := noTwins_of_length_foldl xs (acc ++ [x]) (by simp at h ⊢; omega)
    refine ⟨?_, ?_⟩
    · simp only [noTwins, Bool.and_eq_true, List.all_eq_true, Bool.not_eq_true']
      exact ⟨fun y hy => hacc y hy x (by simp), hn⟩
    · intro z hz y hy
      rcases List.mem_cons.mp hz with rfl | hz
      · exact hx y hy
      · exact hacc z hz y (by simp [hy])

theorem placeAll_of_noTwins {xs : List α} (h : noTwins key xs = true) :
    placeAll key join xs = xs := by
  unfold placeAll
  rw [foldl_place_of_new xs [] (by simp) h, List.nil_append]

theorem noTwins_of_length_placeAll {xs : List α}
    (h : (placeAll key join xs).length = xs.length) : noTwins key xs = true :=
  (noTwins_of_length_foldl xs [] (h.trans (Nat.zero_add _).symm)).1

end

/-! ## Values without twins -/

theorem length_mergedAll : ∀ vs : List HostValue, (mergedAll vs).length = vs.length
  | [] => rfl
  | _ :: vs => by simp [mergedAll, length_mergedAll vs]

theorem length_mergedEntries : ∀ es : List (HostValue × HostValue),
    (mergedEntries es).length = es.length
  | [] => rfl
  | _ :: es => by simp [mergedEntries, length_mergedEntries es]

/-- A list `ms` of as many items is placed to `xs` exactly if it is `xs` and has
no twins. -/
theorem placeAll_eq_iff {key : α → HostValue} {join : α → α → α} {ms xs : List α}
    (hl : ms.length = xs.length) :
    placeAll key join ms = xs ↔ ms = xs ∧ noTwins key xs = true := by
  constructor
  · intro h
    have hn : noTwins key ms = true := by
      apply noTwins_of_length_placeAll
      rw [h, hl]
    have he : ms = xs := by rw [← h, placeAll_of_noTwins hn]
    exact ⟨he, he ▸ hn⟩
  · rintro ⟨rfl, hn⟩
    exact placeAll_of_noTwins hn

mutual

/-- A value stays as it is when it is merged exactly if it has no twins. -/
theorem merged_eq_self_iff : ∀ v : HostValue, v.merged = v ↔ v.distinct = true
  | .none | .int _ | .float _ | .complex _ _ | .str _ => by simp [merged, distinct]
  | .list items => by simp [merged, distinct, mergedAll_eq_self_iff items]
  | .tuple items => by simp [merged, distinct, mergedAll_eq_self_iff items]
  | .set items => by
    simp [merged, distinct, placeAll_eq_iff (length_mergedAll items),
      mergedAll_eq_self_iff items]
  | .dict entries => by
    simp [merged, distinct, placeAll_eq_iff (length_mergedEntries entries),
      mergedEntries_eq_self_iff entries]

theorem mergedAll_eq_self_iff : ∀ vs : List HostValue,
    mergedAll vs = vs ↔ distinctAll vs = true
  | [] => by simp [mergedAll, distinctAll]
  | v :: vs => by
    simp [mergedAll, distinctAll, merged_eq_self_iff v, mergedAll_eq_self_iff vs]

theorem mergedEntries_eq_self_iff : ∀ es : List (HostValue × HostValue),
    mergedEntries es = es ↔ distinctEntries es = true
  | [] => by simp [mergedEntries, distinctEntries]
  | (k, v) :: es => by
    simp [mergedEntries, distinctEntries, merged_eq_self_iff k, merged_eq_self_iff v,
      mergedEntries_eq_self_iff es]

end

end WrapGen.HostValue
