import WrapGen.Proofs.Conversion.Typed
import WrapGen.Proofs.Wrapper.Live

/-!
# Storage holds values of its type

Every container has one type, which its wrappers carry and whose keys its
iterators carry, and all that is in the container is of this type at every depth
(`WellTyped`). Values come in by conversion only, and a wrapper shares a
container only with wrappers of the same type, so every effect keeps this.

Conversion out of storage looks at the shape of values but not at the widths of
numbers, and it fails for a value of another shape. In well-typed storage there
is none:

* `wellTyped_after`: storage is well-typed after any operations.
* `stored_values_convert`: so no conversion out of storage ever fails.
-/
namespace WrapGen

/-! ## Contents -/

namespace Content

/-- Whether all that is in a content is of a type. -/
def hasType (content : Content) (t : WrappedType) : Bool := content.datum.hasType t.elementType

variable {t : WrappedType} {content : Content}

theorem hasType_set_iff {e : ElementType} {items : List Datum} :
    (set items).hasType (.set e) = true ↔ ∀ d ∈ items, d.hasType e = true :=
  Datum.hasTypeAll_iff

theorem hasType_map_iff {k v : ElementType} {entries : List (Datum × Datum)} :
    (map entries).hasType (.map k v) = true ↔
      ∀ e ∈ entries, e.1.hasType k = true ∧ e.2.hasType v = true :=
  Datum.hasTypeEntries_iff

theorem hasType_empty : ∀ t : WrappedType, (empty t).hasType t = true
  | .set _ => rfl
  | .map _ _ => rfl

theorem hasType_ofHost {v : HostValue} (h : ofHost t v = .ok content) :
    content.hasType t = true := by
  cases t with
  | set e =>
    obtain ⟨items, -, h⟩ := bind_eq_ok h
    obtain ⟨ds, hds, h⟩ := bind_eq_ok h
    cases h
    refine hasType_set_iff.mpr fun d hd => ?_
    obtain ⟨v, -, hv⟩ := forall₂_mem_right (forall₂_of_mapM hds) (Ordered.mem_of_mem_ofList hd)
    exact ElementType.hasType_of_toDatum hv
  | map k e =>
    obtain ⟨entries, -, h⟩ := bind_eq_ok h
    obtain ⟨es, hes, h⟩ := bind_eq_ok h
    cases h
    refine hasType_map_iff.mpr fun d hd => ?_
    obtain ⟨entry, -, hentry⟩ :=
      forall₂_mem_right (forall₂_of_mapM hes) (Ordered.mem_of_mem_ofList hd)
    obtain ⟨x, hx, hentry⟩ := bind_eq_ok hentry
    obtain ⟨y, hy, hentry⟩ := bind_eq_ok hentry
    cases hentry
    exact ⟨ElementType.hasType_of_toDatum hx, ElementType.hasType_of_toDatum hy⟩

theorem hasType_erase (h : content.hasType t = true) (k : Datum) :
    (content.erase k).hasType t = true := by
  cases t <;> cases content
  · exact hasType_set_iff.mpr fun d hd => hasType_set_iff.mp h d (List.mem_filter.mp hd).1
  · exact h
  · exact h
  · exact hasType_map_iff.mpr fun e he => hasType_map_iff.mp h e (List.mem_filter.mp he).1

theorem hasType_add {e : ElementType} {x : Datum} (h : content.hasType (.set e) = true)
    (hx : x.hasType e = true) : (content.add x).hasType (.set e) = true := by
  cases content with
  | set items =>
    refine hasType_set_iff.mpr fun d hd => ?_
    rcases Ordered.mem_of_mem_insert hd with rfl | hd
    · exact hx
    · exact hasType_set_iff.mp h d hd
  | map entries => exact h

theorem hasType_put {k v : ElementType} {x y : Datum} (h : content.hasType (.map k v) = true)
    (hx : x.hasType k = true) (hy : y.hasType v = true) :
    (content.put x y).hasType (.map k v) = true := by
  cases content with
  | set items => exact h
  | map entries =>
    refine hasType_map_iff.mpr fun e he => ?_
    rcases Ordered.mem_of_mem_insert he with rfl | he
    · exact ⟨hx, hy⟩
    · exact hasType_map_iff.mp h e he

/-- The keys of a content are of the type of keys. -/
theorem hasType_of_mem_keys (h : content.hasType t = true) {k : Datum} (hk : k ∈ content.keys) :
    k.hasType t.keyType = true := by
  cases t <;> cases content
  · exact hasType_set_iff.mp h k hk
  · cases h
  · cases h
  · obtain ⟨e, he, rfl⟩ := List.mem_map.mp hk
    exact (hasType_map_iff.mp h e he).1

end Content

namespace Store

theorem hasType_of_isStart {t : WrappedType} {content : Content} (h : IsStart t content) :
    content.hasType t = true := by
  rcases h with rfl | ⟨v, h⟩
  · exact Content.hasType_empty t
  · exact Content.hasType_ofHost h

/-! ## Stores -/

/-- The containers of a store have the types of a list, which their wrappers and
iterators carry, and hold values of these types. -/
structure WellTyped (types : List WrappedType) (s : Store) : Prop extends Typing types s where
  data : List.Forall₂ (fun t content => content.hasType t = true) types s.contents

section
variable {types : List WrappedType} {s : Store}

/-- Writing keeps a store well-typed if the new content is of the type of the wrapper. -/
theorem WellTyped.setContent (h : WellTyped types s) {w : Wrapper} {content : Content}
    (hw : types[w.storage]? = some w.type)
    (hf : ∀ t, (s.contentAt w.storage).Fits t → content.Fits t)
    (hc : (s.contentAt w.storage).hasType w.type = true → content.hasType w.type = true) :
    WellTyped types (s.setContent w.storage content) := by
  refine ⟨h.toTyping.setContent hf, forall₂_set h.data fun t ht => ?_⟩
  cases hw.symm.trans ht
  obtain ⟨old, hold, htyped⟩ := forall₂_getElem?_left h.data hw
  refine hc ?_
  rw [contentAt, hold]
  exact htyped

theorem WellTyped.effect {s' : Store} {op : Operation} (h : WellTyped types s)
    (he : s.Effect op s') : ∃ types', WellTyped types' s' := by
  have ht := h.toTyping
  cases he with
  | same => exact ⟨types, h⟩
  | fresh id w content hs ho hk hc =>
    exact ⟨_, ht.fresh hs hk (fits_of_isStart hc),
      List.rel_append h.data (.cons (hasType_of_isStart hc) .nil)⟩
  | shared id source v w hv hl hs htype hk => exact ⟨types, ht.shared hv hs htype, h.data⟩
  | dropped id => exact ⟨types, ht.dropped id, h.data⟩
  | closed iterator => exact ⟨types, ht.closed iterator, h.data⟩
  | erased id w k hw hl =>
    exact ⟨types, h.setContent (ht.lookup hw) (fun _ hf => hf.erase k)
      fun hc => Content.hasType_erase hc k⟩
  | added id w e v x hw hl htype hx =>
    refine ⟨types, h.setContent (ht.lookup hw) (fun _ hf => hf.add x) ?_⟩
    rw [htype]
    exact fun hc => Content.hasType_add hc (ElementType.hasType_of_toDatum hx)
  | put id w k t key value x y hw hl htype hx hy =>
    refine ⟨types, h.setContent (ht.lookup hw) (fun _ hf => hf.put x y) ?_⟩
    rw [htype]
    exact fun hc => Content.hasType_put hc (ElementType.hasType_of_toDatum hx)
      (ElementType.hasType_of_toDatum hy)
  | opened id iterator w hw hl => exact ⟨types, ht.opened hw, h.data⟩
  | moved iterator cursor p hc => exact ⟨types, ht.moved hc, h.data⟩

/-- The content of a container is of its type. -/
theorem WellTyped.contentAt (h : WellTyped types s) {n : Nat} {t : WrappedType}
    (ht : types[n]? = some t) : (s.contentAt n).hasType t = true := by
  obtain ⟨content, hc, htyped⟩ := forall₂_getElem?_left h.data ht
  rw [Store.contentAt, hc]
  exact htyped

end

theorem wellTyped_after (c : Catalog) (ops : List Operation) :
    ∃ types, WellTyped types (empty.after c ops) :=
  after_induction (P := fun s => ∃ types, WellTyped types s) c
    ⟨[], ⟨.nil, by simp, by simp [empty], by simp [empty]⟩, .nil⟩
    (fun _ _ _ ⟨_, h⟩ he => h.effect he) ops

/-! ## Conversion out of storage -/

section
variable {types : List WrappedType} {s : Store} (h : WellTyped types s) (c : Catalog)
include h

/-- A bound iterator always makes its step. -/
theorem WellTyped.next {iterator : String} {cursor : Cursor}
    (hc : s.cursors.lookup iterator = some cursor) :
    ∃ result, s.run c (.next iterator) = .ok result := by
  obtain ⟨t, ht, hitem⟩ := h.cursors _ (mem_of_lookup hc)
  have hkey : ∀ {last k}, Ordered.firstAfter id last (s.contentAt cursor.storage).keys = some k →
      ∃ v, k.toHost cursor.item = .ok v := by
    intro last k hk
    have htyped := Content.hasType_of_mem_keys (h.contentAt ht) (Ordered.mem_of_firstAfter hk)
    rw [hitem] at htyped
    exact Datum.toHost_of_hasType htyped
  rw [run, hc]
  dsimp only
  split
  · split
    · exact ⟨_, rfl⟩
    · rename_i k hk
      obtain ⟨v, hv⟩ := hkey hk
      rw [hv]
      exact ⟨_, rfl⟩
  · split
    · exact ⟨_, rfl⟩
    · rename_i k hk
      obtain ⟨v, hv⟩ := hkey hk
      rw [hv]
      exact ⟨_, rfl⟩
  · exact ⟨_, rfl⟩

section
variable {id : String} {w : Wrapper} (hw : s.wrappers.lookup id = some w)
  (hl : s.isLive w.storage = true)
include hw hl

theorem WellTyped.live : Live s id w (s.contentAt w.storage) where
  bound := hw
  live := hl
  holds := (h.toTyping.contentAt (h.lookup hw)).1
  typed := h.contentAt (h.lookup hw)

/-- A live container is converted as a whole. -/
theorem WellTyped.toHost : ∃ v, s.run c (.toHost id) = .ok (s, .value v) := by
  obtain ⟨v, hv⟩ := Datum.toHost_of_hasType (h.live hw hl).typed
  refine ⟨v, ?_⟩
  rw [run, wrapper_bind hw, content_bind hl, hv]
  rfl

/-- A lookup in a live map finds a value, or does not find the key, or fails in
the check of the key. -/
theorem WellTyped.get {k t : ElementType} (ht : w.type = .map k t) (key : HostValue) :
    (∃ v, s.run c (.get id key) = .ok (s, .value v)) ∨
      s.run c (.get id key) = .error (.fault (.absentKey key)) ∨
      ∃ f, c.check key k "keys" = .error f ∧ s.run c (.get id key) = .error (.fault f) := by
  obtain ⟨entries, hcontent, htyped⟩ := (h.live hw hl).exists_entries ht
  rw [run, mapWrapper_bind hw ht]
  dsimp only
  rw [content_bind hl, hcontent]
  cases hcheck : c.check key k "keys" with
  | error f => exact Or.inr (Or.inr ⟨f, rfl, rfl⟩)
  | ok =>
    obtain ⟨k?, hlookup⟩ := c.lookup_of_accepted (Catalog.accepted_of_check hcheck)
    rw [hlookup]
    simp only [refuse, Except.mapError, bind, Except.bind]
    split
    · exact Or.inr (Or.inl rfl)
    · rename_i d hd
      obtain ⟨stored, -, hd⟩ := Option.bind_eq_some_iff.mp hd
      obtain ⟨v, hv⟩ := Datum.toHost_of_hasType (Content.hasType_of_get? htyped hd)
      rw [hv]
      exact Or.inl ⟨v, rfl⟩

end

end

/-- After any operations storage is well-typed: the wrappers and the iterators of
a container have its type, and all that is in it is of this type at every depth.
So an iterator always makes its step, a live container is always converted as a
whole, and what a lookup finds is always converted. -/
theorem stored_values_convert (c : Catalog) (ops : List Operation) :
    let s := empty.after c ops
    (∃ types, WellTyped types s) ∧
    (∀ iterator cursor, s.cursors.lookup iterator = some cursor →
      ∃ result, s.run c (.next iterator) = .ok result) ∧
    ∀ id w, s.wrappers.lookup id = some w → s.isLive w.storage = true →
      (∃ v, s.run c (.toHost id) = .ok (s, .value v)) ∧
      ∀ k t key, w.type = .map k t →
        (∃ v, s.run c (.get id key) = .ok (s, .value v)) ∨
        s.run c (.get id key) = .error (.fault (.absentKey key)) ∨
        ∃ f, c.check key k "keys" = .error f ∧ s.run c (.get id key) = .error (.fault f) := by
  intro s
  obtain ⟨types, h⟩ := wellTyped_after c ops
  exact ⟨⟨types, h⟩, fun _ _ hc => h.next c hc, fun _ _ hw hl =>
    ⟨h.toHost c hw hl, fun _ _ key ht => h.get c hw hl ht key⟩⟩

/-- A map of sets that an alias shares, with an iterator that outlives the owner. -/
theorem stored_values_convert_nested :
    let type : WrappedType := .map (.primitive .int32) (.set (.primitive .float32))
    let s := empty.after .builtin
      [.create "m" type .permissive .empty,
       .put "m" (.int 7) (.set [.int 1, .int 16777217]),
       .create "a" type .strict (.alias "m" none),
       .iterate "a" "i",
       .drop "m"]
    (∃ result, s.run .builtin (.next "i") = .ok result) ∧
      (∃ v, s.run .builtin (.toHost "a") = .ok (s, .value v)) ∧
      ∃ v, s.run .builtin (.get "a" (.int 7)) = .ok (s, .value v) := by
  intro type s
  let w : Wrapper := ⟨type, .strict, 0, false⟩
  obtain ⟨-, hnext, hlive⟩ := stored_values_convert .builtin
    [.create "m" type .permissive .empty,
     .put "m" (.int 7) (.set [.int 1, .int 16777217]),
     .create "a" type .strict (.alias "m" none),
     .iterate "a" "i",
     .drop "m"]
  obtain ⟨hhost, hget⟩ := hlive "a" w rfl rfl
  refine ⟨hnext "i" ⟨.primitive .int32, 0, .start⟩ rfl, hhost, ?_⟩
  rcases hget _ _ (.int 7) rfl with hfound | habsent | ⟨f, hcheck, -⟩
  · exact hfound
  · cases habsent
  · cases hcheck

end Store

end WrapGen
