import Mathlib.Data.Finmap
import Mathlib.Data.Finset.Sort
import WrapGen.Proofs.Wrapper.Invariant

/-!
# Containers as finite sets and finite maps

A container without its representation: a finite set of data, or a finite map
from data to data. `Collection.perform` says what an operation on a wrapper
answers and what it leaves of the container. `Content.model` forgets the order
of a content, and for contents that fit their type every operation on the list
is the one on the set or map.
-/
namespace WrapGen

/-- A finite set or a finite map of data. -/
inductive Collection where
  | set (members : Finset Datum)
  | map (entries : Finmap fun _ : Datum => Datum)

namespace Collection

/-- The container is one of a type. -/
def IsOf : WrappedType → Collection → Prop
  | .set _, set _ | .map _ _, map _ => True
  | _, _ => False

/-- The container without anything. -/
def empty : WrappedType → Collection
  | .set _ => set ∅
  | .map _ _ => map ∅

/-- The members of a set, or the keys of a map. -/
def keys : Collection → Finset Datum
  | set members => members
  | map entries => entries.keys

/-- The set with a member more. -/
def add (m : Collection) (x : Datum) : Collection :=
  match m with
  | set members => set (insert x members)
  | map entries => map entries

/-- The map with a value under a key. -/
def put (m : Collection) (k v : Datum) : Collection :=
  match m with
  | set members => set members
  | map entries => map (entries.insert k v)

/-- The container without a key. -/
def erase (m : Collection) (k : Datum) : Collection :=
  match m with
  | set members => set (members.erase k)
  | map entries => map (entries.erase k)

/-- The value under a key of a map. -/
def get? (m : Collection) (k : Datum) : Option Datum :=
  match m with
  | set _ => none
  | map entries => entries.lookup k

/-- The entries of a finite map, their keys in order. -/
def entryList (entries : Finmap fun _ : Datum => Datum) : List (Datum × Datum) :=
  entries.keys.sort.filterMap fun k => (entries.lookup k).map fun v => (k, v)

/-- The container as one datum. -/
def datum : Collection → Datum
  | set members => .set members.sort
  | map entries => .map (entryList entries)

/-- The container that a host collection gives: the set of what its items
convert to, or the map in which the last entry of a key counts. -/
def ofHost (t : WrappedType) (v : HostValue) : Except Fault Collection :=
  match t with
  | .set e => do
    let items ← Content.itemsOf t v
    return set (← items.mapM e.toDatum).toFinset
  | .map k e => do
    let entries ← Content.entriesOf t v
    return map ((← entries.mapM (Content.storeEntry k e)).foldl (fun m d => m.insert d.1 d.2) ∅)

/-! ## Operations -/

/-- Removes a key that is looked for. -/
def remove (c : Catalog) (w : Wrapper) (m : Collection) (key : HostValue) :
    Except Refusal (Collection × Answer) := do
  match ← Store.refuse (c.lookup key w.type.keyType) with
  | none => return (m, .count m.keys.card)
  | some k => return (m.erase k, .count (m.erase k).keys.card)

/-- What an operation on the wrapper `w` leaves of its container, and answers. -/
def perform (c : Catalog) (w : Wrapper) (m : Collection) :
    Operation → Except Refusal (Collection × Answer)
  | .contains _ key => do
    match ← Store.refuse (c.lookup key w.type.keyType) with
    | none => return (m, .flag false)
    | some k => return (m, .flag (decide (k ∈ m.keys)))
  | .size _ => return (m, .count m.keys.card)
  | .isEmpty _ => return (m, .flag (m.keys.card == 0))
  | .toHost _ => do
    let v ← Store.refuse (m.datum.toHost w.type.elementType)
    return (m, .value v)
  | .add _ value =>
    match w.type with
    | .set e => do
      Store.checkInsertion c w value e "values"
      let x ← Store.refuse (e.toDatum value)
      return (m.add x, .count (m.add x).keys.card)
    | .map _ _ => .error .unbound
  | .discard _ value =>
    match w.type with
    | .set _ => m.remove c w value
    | .map _ _ => .error .unbound
  | .get _ key =>
    match w.type with
    | .map k v => do
      Store.refuse (c.check key k "keys")
      match (← Store.refuse (c.lookup key k)).bind m.get? with
      | none => throw (.fault (.absentKey key))
      | some d =>
        let found ← Store.refuse (d.toHost v)
        return (m, .value found)
    | .set _ => .error .unbound
  | .put _ key value =>
    match w.type with
    | .map k v => do
      Store.checkInsertion c w key k "keys"
      Store.checkInsertion c w value v "values"
      let x ← Store.refuse (k.toDatum key)
      let y ← Store.refuse (v.toDatum value)
      return (m.put x y, .count (m.put x y).keys.card)
    | .set _ => .error .unbound
  | .delete _ key =>
    match w.type with
    | .map _ _ => m.remove c w key
    | .set _ => .error .unbound
  | _ => .error .unbound

end Collection

/-! ## From lists to sets and maps -/

namespace Content

/-- The finite map of a list of entries, in which the first of a key counts. -/
def finmap (entries : List (Datum × Datum)) : Finmap fun _ : Datum => Datum :=
  (entries.map fun e => (⟨e.1, e.2⟩ : Σ _ : Datum, Datum)).toFinmap

/-- The content without its order. -/
def model : Content → Collection
  | set items => .set items.toFinset
  | map entries => .map (finmap entries)

theorem lookup_finmap (k : Datum) (entries : List (Datum × Datum)) :
    (finmap entries).lookup k = (Ordered.find? Prod.fst k entries).map Prod.snd := by
  unfold finmap
  rw [Finmap.dlookup_list_toFinmap]
  induction entries with
  | nil => rfl
  | cons e entries ih =>
    rw [List.map_cons, Ordered.find?_cons]
    by_cases h : k = e.1
    · subst h
      rw [if_pos rfl]
      exact List.dlookup_cons_eq _ _ _
    · rw [if_neg h, List.dlookup_cons_ne _ _ h, ih]

theorem keys_finmap (entries : List (Datum × Datum)) :
    (finmap entries).keys = (entries.map Prod.fst).toFinset := by
  ext k
  rw [Finmap.mem_keys, ← Finmap.lookup_isSome, lookup_finmap, Option.isSome_map,
    Ordered.find?_isSome_iff, List.mem_toFinset]

variable {t : WrappedType} {content : Content}

theorem keys_model (content : Content) : content.model.keys = content.keys.toFinset := by
  cases content with
  | set items => rfl
  | map entries => exact keys_finmap entries

theorem Fits.isOf (h : Fits t content) : content.model.IsOf t := by
  cases t <;> cases content
  · exact trivial
  · exact h.elim
  · exact h.elim
  · exact trivial

theorem contains_eq (content : Content) (k : Datum) :
    content.contains k = decide (k ∈ content.model.keys) := by
  have h : content.contains k = true ↔ k ∈ content.keys := by
    unfold contains
    rw [Ordered.contains_iff, List.map_id]
  rw [keys_model, Bool.eq_iff_iff, h, decide_eq_true_iff, List.mem_toFinset]

theorem size_eq (h : Fits t content) : content.size = content.model.keys.card := by
  have hn : content.keys.Nodup := by
    have := h.sorted.nodup
    rwa [List.map_id] at this
  rw [keys_model, List.toFinset_card_of_nodup hn]
  rfl

theorem model_empty (t : WrappedType) : (empty t).model = Collection.empty t := by
  cases t <;> rfl

theorem model_erase (content : Content) (k : Datum) :
    (content.erase k).model = content.model.erase k := by
  cases content with
  | set items =>
    refine congrArg Collection.set (Finset.ext fun x => ?_)
    rw [List.mem_toFinset, Ordered.mem_erase, Finset.mem_erase, List.mem_toFinset]
  | map entries =>
    refine congrArg Collection.map (Finmap.ext_lookup fun x => ?_)
    rw [lookup_finmap, Ordered.find?_erase]
    by_cases h : x = k
    · rw [if_pos h, h, Finmap.lookup_erase]
      rfl
    · rw [if_neg h, Finmap.lookup_erase_ne h, lookup_finmap]

theorem model_add (content : Content) (x : Datum) :
    (content.add x).model = content.model.add x := by
  cases content with
  | set items =>
    refine congrArg Collection.set (Finset.ext fun y => ?_)
    rw [List.mem_toFinset, Ordered.mem_insert, Finset.mem_insert, List.mem_toFinset]
  | map entries => rfl

theorem finmap_insert (d : Datum × Datum) (entries : List (Datum × Datum)) :
    finmap (Ordered.insert Prod.fst d entries) = (finmap entries).insert d.1 d.2 := by
  refine Finmap.ext_lookup fun k => ?_
  rw [lookup_finmap, Ordered.find?_insert]
  by_cases h : k = d.1
  · rw [if_pos h, h, Finmap.lookup_insert]
    rfl
  · rw [if_neg h, Finmap.lookup_insert_of_ne _ h, lookup_finmap]

theorem model_put (content : Content) (k v : Datum) :
    (content.put k v).model = content.model.put k v := by
  cases content with
  | set items => rfl
  | map entries => exact congrArg Collection.map (finmap_insert (k, v) entries)

theorem get?_eq (content : Content) (k : Datum) : content.get? k = content.model.get? k := by
  cases content with
  | set items => rfl
  | map entries => exact (lookup_finmap k entries).symm

/-- A list in order is what the set of its items sorts to. -/
theorem sort_toFinset_of_sorted {ks : List Datum} (h : Ordered.Sorted id ks) :
    ks.toFinset.sort = ks := by
  have hn : ks.Nodup := by
    have := h.nodup
    rwa [List.map_id] at this
  rw [List.toFinset_sort _ hn]
  exact h.imp le_of_lt

theorem entryList_finmap {entries : List (Datum × Datum)}
    (h : Ordered.Sorted Prod.fst entries) : Collection.entryList (finmap entries) = entries := by
  unfold Collection.entryList
  rw [keys_finmap, sort_toFinset_of_sorted (Ordered.sorted_iff_map.mp h), List.filterMap_map]
  have hsome : ∀ e ∈ entries, ((fun k => ((finmap entries).lookup k).map fun v => (k, v)) ∘
      Prod.fst) e = some e := by
    intro e he
    show ((finmap entries).lookup e.1).map (fun v => (e.1, v)) = some e
    rw [lookup_finmap, h.find?_of_mem he]
    rfl
  rw [List.filterMap_congr hsome, List.filterMap_some]

theorem datum_eq (h : Fits t content) : content.datum = content.model.datum := by
  cases t <;> cases content
  · exact congrArg Datum.set (sort_toFinset_of_sorted h).symm
  · exact h.elim
  · exact h.elim
  · exact congrArg Datum.map (entryList_finmap h).symm

theorem toFinset_ofList (ds : List Datum) : (Ordered.ofList id ds).toFinset = ds.toFinset := by
  ext x
  rw [List.mem_toFinset, List.mem_toFinset, Ordered.mem_ofList]

theorem finmap_ofList (ds : List (Datum × Datum)) :
    finmap (Ordered.ofList Prod.fst ds) = ds.foldl (fun m d => m.insert d.1 d.2) ∅ := by
  have hfold : ∀ ds acc : List (Datum × Datum),
      finmap (ds.foldl (fun acc d => Ordered.insert Prod.fst d acc) acc) =
        ds.foldl (fun m d => m.insert d.1 d.2) (finmap acc) := by
    intro ds
    induction ds with
    | nil => exact fun _ => rfl
    | cons d ds ih =>
      intro acc
      rw [List.foldl_cons, ih, finmap_insert, List.foldl_cons]
  exact hfold ds []

/-- Filling from a host collection gives the same container, or the same fault. -/
theorem model_ofHost (t : WrappedType) (v : HostValue) :
    (ofHost t v).map model = Collection.ofHost t v := by
  cases t with
  | set e =>
    unfold ofHost Collection.ofHost
    cases itemsOf (.set e) v with
    | error f => rfl
    | ok items =>
      show (items.mapM e.toDatum >>= _).map model = items.mapM e.toDatum >>= _
      cases items.mapM e.toDatum with
      | error f => rfl
      | ok ds =>
        show Except.ok (Collection.set _) = Except.ok (Collection.set _)
        rw [toFinset_ofList]
  | map k e =>
    unfold ofHost Collection.ofHost
    cases entriesOf (.map k e) v with
    | error f => rfl
    | ok entries =>
      show (entries.mapM (storeEntry k e) >>= _).map model = entries.mapM (storeEntry k e) >>= _
      cases entries.mapM (storeEntry k e) with
      | error f => rfl
      | ok ds =>
        show Except.ok (Collection.map _) = Except.ok (Collection.map _)
        rw [finmap_ofList]

end Content

end WrapGen
