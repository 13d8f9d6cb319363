import WrapGen.Proofs.Value.Ordered
import WrapGen.Proofs.Wrapper.Effect

/-!
# What holds of every store that is reached

Two invariants of runs from the empty store. `Named`: no name is bound twice, so
what a table lists is what its names are bound to. `Typing`: every container has
one type, which its wrappers share, whose keys its iterators have, and in whose
order its keys are.

* `named_after`, `typing_after`: both hold after any operations.
* `isLive_iff`: a container is live while a name is bound to an owner or an
  iterator of it.
-/
namespace WrapGen

/-! ## Tables -/

section
variable {α : Type} {table : List (String × α)} {id : String} {x : α}

theorem mem_of_lookup : ∀ {table : List (String × α)}, table.lookup id = some x → (id, x) ∈ table
  | [], h => by cases h
  | (k, y) :: rest, h => by
    rw [List.lookup_cons] at h
    split at h
    · rename_i hk
      cases h
      rw [beq_iff_eq.mp hk]
      exact List.mem_cons_self
    · exact List.mem_cons_of_mem _ (mem_of_lookup h)

theorem lookup_of_mem : ∀ {table : List (String × α)}, (table.map Prod.fst).Nodup →
    (id, x) ∈ table → table.lookup id = some x
  | (k, y) :: rest, hn, hm => by
    obtain ⟨hk, hrest⟩ := List.nodup_cons.mp hn
    rw [List.lookup_cons]
    rcases List.mem_cons.mp hm with he | hr
    · cases he
      simp
    · have hne : (id == k) = false := by
        rw [beq_eq_false_iff_ne]
        intro he
        have hm' : id ∈ rest.map Prod.fst := List.mem_map_of_mem hr
        exact hk (he ▸ hm')
      rw [hne]
      exact lookup_of_mem hrest hr

theorem lookup_rebind_self : (rebind id x table).lookup id = some x := by
  rw [rebind, List.lookup_cons_self]

theorem lookup_rebind_of_ne {other : String} (h : other ≠ id) :
    (rebind id x table).lookup other = table.lookup other := by
  have hother : (other == id) = false := beq_eq_false_iff_ne.mpr h
  rw [rebind, List.lookup_cons, hother]
  induction table with
  | nil => rfl
  | cons row rest ih =>
    obtain ⟨k, y⟩ := row
    by_cases hk : k = id
    · subst hk
      rw [List.lookup_cons, hother, ← ih]
      simp [unbind]
    · rw [List.lookup_cons, ← ih]
      simp [unbind, hk, List.lookup_cons]

theorem mem_unbind {row : String × α} (h : row ∈ unbind id table) : row ∈ table :=
  (List.mem_filter.mp h).1

theorem mem_rebind {row : String × α} (h : row ∈ rebind id x table) :
    row = (id, x) ∨ row ∈ table :=
  (List.mem_cons.mp h).imp_right mem_unbind

theorem nodup_unbind (h : (table.map Prod.fst).Nodup) :
    ((unbind id table).map Prod.fst).Nodup :=
  h.sublist (List.filter_sublist.map _)

theorem nodup_rebind (h : (table.map Prod.fst).Nodup) :
    ((rebind id x table).map Prod.fst).Nodup := by
  refine List.nodup_cons.mpr ⟨?_, nodup_unbind h⟩
  intro hm
  obtain ⟨row, hrow, he⟩ := List.mem_map.mp hm
  have hne := (List.mem_filter.mp hrow).2
  rw [bne_iff_ne] at hne
  exact hne he

end

/-! ## Contents of a type -/

namespace Content

/-- A content is of the kind of a type, and its keys are in order. -/
def Fits : WrappedType → Content → Prop
  | .set _, .set items => Ordered.Sorted id items
  | .map _ _, .map entries => Ordered.Sorted Prod.fst entries
  | _, _ => False

variable {t : WrappedType} {content : Content}

theorem fits_empty : ∀ t : WrappedType, Fits t (empty t)
  | .set _ => List.Pairwise.nil
  | .map _ _ => List.Pairwise.nil

theorem fits_ofHost {v : HostValue} (h : ofHost t v = .ok content) : Fits t content := by
  cases t with
  | set e =>
    obtain ⟨items, -, h⟩ := bind_eq_ok h
    obtain ⟨ds, -, h⟩ := bind_eq_ok h
    cases h
    exact Ordered.sorted_ofList ds
  | map k e =>
    obtain ⟨entries, -, h⟩ := bind_eq_ok h
    obtain ⟨ds, -, h⟩ := bind_eq_ok h
    cases h
    exact Ordered.sorted_ofList ds

theorem Fits.erase (h : Fits t content) (k : Datum) : Fits t (content.erase k) := by
  cases t <;> cases content
  · exact Ordered.Sorted.erase h k
  · exact h
  · exact h
  · exact Ordered.Sorted.erase h k

theorem Fits.add (h : Fits t content) (x : Datum) : Fits t (content.add x) := by
  cases t <;> cases content
  · exact Ordered.Sorted.insert h x
  · exact h
  · exact h
  · exact h

theorem Fits.put (h : Fits t content) (k v : Datum) : Fits t (content.put k v) := by
  cases t <;> cases content
  · exact h
  · exact h
  · exact h
  · exact Ordered.Sorted.insert h (k, v)

/-- The keys of a content are in order, each once. -/
theorem Fits.sorted (h : Fits t content) : Ordered.Sorted id content.keys := by
  cases t <;> cases content
  · exact h
  · exact h.elim
  · exact h.elim
  · exact Ordered.sorted_iff_map.mp h

end Content

namespace Store

theorem fits_of_isStart {t : WrappedType} {content : Content} (h : IsStart t content) :
    content.Fits t := by
  rcases h with rfl | ⟨v, h⟩
  · exact Content.fits_empty t
  · exact Content.fits_ofHost h

/-! ## Names -/

/-- No name is bound twice. -/
structure Named (s : Store) : Prop where
  wrappers : (s.wrappers.map Prod.fst).Nodup
  cursors : (s.cursors.map Prod.fst).Nodup

theorem Named.effect {s s' : Store} {op : Operation} (h : s.Named) (he : s.Effect op s') :
    s'.Named := by
  cases he with
  | same => exact h
  | fresh id w content => exact ⟨nodup_rebind h.wrappers, h.cursors⟩
  | shared id source v w => exact ⟨nodup_rebind h.wrappers, h.cursors⟩
  | dropped id => exact ⟨nodup_unbind h.wrappers, h.cursors⟩
  | closed iterator => exact ⟨h.wrappers, nodup_unbind h.cursors⟩
  | erased id w k => exact ⟨h.wrappers, h.cursors⟩
  | added id w e v x => exact ⟨h.wrappers, h.cursors⟩
  | put id w k t key value x y => exact ⟨h.wrappers, h.cursors⟩
  | opened id iterator w => exact ⟨h.wrappers, nodup_rebind h.cursors⟩
  | moved iterator cursor p => exact ⟨h.wrappers, nodup_rebind h.cursors⟩

theorem named_after (c : Catalog) (ops : List Operation) : (empty.after c ops).Named :=
  after_induction c ⟨List.nodup_nil, List.nodup_nil⟩ (fun _ _ _ h he => h.effect he) ops

/-- A container is live while a name is bound to an owner or an iterator of it. -/
theorem Named.isLive_iff {s : Store} (h : s.Named) {n : Nat} : s.isLive n = true ↔
    (∃ id w, s.wrappers.lookup id = some w ∧ w.owns = true ∧ w.storage = n) ∨
      ∃ iterator cursor, s.cursors.lookup iterator = some cursor ∧ cursor.storage = n := by
  unfold isLive
  simp only [Bool.or_eq_true, List.any_eq_true, Bool.and_eq_true, beq_iff_eq]
  constructor
  · rintro (⟨⟨id, w⟩, hm, ho, hn⟩ | ⟨⟨iterator, cursor⟩, hm, hn⟩)
    · exact Or.inl ⟨id, w, lookup_of_mem h.wrappers hm, ho, hn⟩
    · exact Or.inr ⟨iterator, cursor, lookup_of_mem h.cursors hm, hn⟩
  · rintro (⟨id, w, hl, ho, hn⟩ | ⟨iterator, cursor, hl, hn⟩)
    · exact Or.inl ⟨(id, w), mem_of_lookup hl, ho, hn⟩
    · exact Or.inr ⟨(iterator, cursor), mem_of_lookup hl, hn⟩

/-! ## Types -/

/-- The containers of a store have the types of a list. -/
structure Typing (types : List WrappedType) (s : Store) : Prop where
  contents : List.Forall₂ Content.Fits types s.contents
  keys : ∀ t ∈ types, t.keyType.isKey = true
  wrappers : ∀ row ∈ s.wrappers, types[row.2.storage]? = some row.2.type
  cursors : ∀ row ∈ s.cursors, ∃ t, types[row.2.storage]? = some t ∧ t.keyType = row.2.item

section
variable {types : List WrappedType} {s : Store}

theorem Typing.lookup (h : Typing types s) {id : String} {w : Wrapper}
    (hw : s.wrappers.lookup id = some w) : types[w.storage]? = some w.type :=
  h.wrappers _ (mem_of_lookup hw)

/-- The container of a wrapper is there, and it is one of the type of the wrapper. -/
theorem Typing.contentAt (h : Typing types s) {n : Nat} {t : WrappedType}
    (ht : types[n]? = some t) :
    s.contents[n]? = some (s.contentAt n) ∧ (s.contentAt n).Fits t := by
  obtain ⟨content, hc, hf⟩ := forall₂_getElem?_left h.contents ht
  have hat : s.contentAt n = content := by
    unfold Store.contentAt
    rw [hc]
    rfl
  rw [hat]
  exact ⟨hc, hf⟩

/-- Writing keeps the types if the new content fits wherever the old one did. -/
theorem Typing.setContent (h : Typing types s) {n : Nat} {content : Content}
    (hc : ∀ t, (s.contentAt n).Fits t → content.Fits t) : Typing types (s.setContent n content) :=
  ⟨forall₂_set h.contents fun _ ht => hc _ (h.contentAt ht).2, h.keys, h.wrappers, h.cursors⟩

theorem getElem?_append_of_eq_some {α : Type} {xs ys : List α} {i : Nat} {x : α}
    (h : xs[i]? = some x) : (xs ++ ys)[i]? = some x := by
  rw [List.getElem?_append_left (List.getElem?_eq_some_iff.mp h).1, h]

theorem Typing.fresh (h : Typing types s) {id : String} {w : Wrapper} {content : Content}
    (hs : w.storage = s.contents.length) (hk : w.type.keyType.isKey = true)
    (hf : content.Fits w.type) : Typing (types ++ [w.type]) { s with
      contents := s.contents ++ [content], wrappers := rebind id w s.wrappers } := by
  refine ⟨?_, ?_, ?_, ?_⟩
  · exact List.rel_append h.contents (.cons hf .nil)
  · intro t ht
    rcases List.mem_append.mp ht with ht | ht
    · exact h.keys t ht
    · rw [List.mem_singleton.mp ht]
      exact hk
  · intro row hrow
    rcases mem_rebind hrow with rfl | hrow
    · rw [hs, ← h.contents.length_eq]
      exact List.getElem?_concat_length
    · exact getElem?_append_of_eq_some (h.wrappers row hrow)
  · intro row hrow
    obtain ⟨t, ht, hi⟩ := h.cursors row hrow
    exact ⟨t, getElem?_append_of_eq_some ht, hi⟩

/-- A further wrapper of a container has its type. -/
theorem Typing.shared (h : Typing types s) {id source : String} {v w : Wrapper}
    (hv : s.wrappers.lookup source = some v) (hs : w.storage = v.storage) (ht : w.type = v.type) :
    Typing types { s with wrappers := rebind id w s.wrappers } := by
  refine ⟨h.contents, h.keys, ?_, h.cursors⟩
  intro row hrow
  rcases mem_rebind hrow with rfl | hrow
  · rw [hs, ht]
    exact h.lookup hv
  · exact h.wrappers row hrow

theorem Typing.dropped (h : Typing types s) (id : String) :
    Typing types { s with wrappers := unbind id s.wrappers } :=
  ⟨h.contents, h.keys, fun row hrow => h.wrappers row (mem_unbind hrow), h.cursors⟩

theorem Typing.closed (h : Typing types s) (iterator : String) :
    Typing types { s with cursors := unbind iterator s.cursors } :=
  ⟨h.contents, h.keys, h.wrappers, fun row hrow => h.cursors row (mem_unbind hrow)⟩

/-- An iterator yields the keys of the container. -/
theorem Typing.opened (h : Typing types s) {id iterator : String} {w : Wrapper} {p : Position}
    (hw : s.wrappers.lookup id = some w) : Typing types { s with
      cursors := rebind iterator ⟨w.type.keyType, w.storage, p⟩ s.cursors } := by
  refine ⟨h.contents, h.keys, h.wrappers, ?_⟩
  intro row hrow
  rcases mem_rebind hrow with rfl | hrow
  · exact ⟨w.type, h.lookup hw, rfl⟩
  · exact h.cursors row hrow

theorem Typing.moved (h : Typing types s) {iterator : String} {cursor : Cursor} {p : Position}
    (hc : s.cursors.lookup iterator = some cursor) : Typing types { s with
      cursors := rebind iterator { cursor with position := p } s.cursors } := by
  refine ⟨h.contents, h.keys, h.wrappers, ?_⟩
  intro row hrow
  rcases mem_rebind hrow with rfl | hrow
  · exact h.cursors (iterator, cursor) (mem_of_lookup hc)
  · exact h.cursors row hrow

theorem Typing.effect {s' : Store} {op : Operation} (h : Typing types s) (he : s.Effect op s') :
    ∃ types', Typing types' s' := by
  cases he with
  | same => exact ⟨types, h⟩
  | fresh id w content hs ho hk hc => exact ⟨_, h.fresh hs hk (fits_of_isStart hc)⟩
  | shared id source v w hv hl hs ht hk => exact ⟨types, h.shared hv hs ht⟩
  | dropped id => exact ⟨types, h.dropped id⟩
  | closed iterator => exact ⟨types, h.closed iterator⟩
  | erased id w k hw hl => exact ⟨types, h.setContent fun _ hf => hf.erase k⟩
  | added id w e v x hw hl ht hx => exact ⟨types, h.setContent fun _ hf => hf.add x⟩
  | put id w k t key value x y hw hl ht hx hy =>
    exact ⟨types, h.setContent fun _ hf => hf.put x y⟩
  | opened id iterator w hw hl => exact ⟨types, h.opened hw⟩
  | moved iterator cursor p hc => exact ⟨types, h.moved hc⟩

end

theorem typing_after (c : Catalog) (ops : List Operation) :
    ∃ types, Typing types (empty.after c ops) :=
  after_induction (P := fun s => ∃ types, Typing types s) c
    ⟨[], .nil, by simp, by simp [empty], by simp [empty]⟩
    (fun _ _ _ ⟨_, h⟩ he => h.effect he) ops

end Store

end WrapGen
