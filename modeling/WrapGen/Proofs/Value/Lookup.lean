import WrapGen.Proofs.Conversion.Domain

/-!
# Host values as keys

What becomes of a host value that is looked up as a key (`KeyFate`): its kind is
not accepted, it is an integer that storage cannot hold, or it has a storage form.
`exists_keyFate` says that there is nothing else for ordered primitives, and
`KeyFate.lookup` that the lookup of a catalog tells the first two from the third.
-/
namespace WrapGen

open Catalog

/-- What becomes of a host value as a key of a type, and its storage form if it has one. -/
inductive KeyFate (t : ElementType) (v : HostValue) : Option Datum → Prop
  | mistyped (h : builtin.acceptsValue v t = .ok false) : KeyFate t v none
  | overflow {p : Primitive} {n : Int} (h : builtin.acceptsValue v t = .ok true)
      (ht : t = .primitive p) (hp : p.isInteger = true)
      (hd : t.toDatum v = .error (.outOfRange n p)) : KeyFate t v none
  | stored {d : Datum} (h : builtin.acceptsValue v t = .ok true) (hd : t.toDatum v = .ok d) :
      KeyFate t v (some d)

theorem Primitive.isInteger_of_integerKind {p : Primitive} {k : IntegerKind}
    (h : p.integerKind? = some k) : p.isInteger = true := by
  cases p <;> first | rfl | cases h

/-- An integer as a key is stored or does not fit. -/
theorem exists_keyFate_integer {p : Primitive} {k : IntegerKind} (h : p.integerKind? = some k)
    (v : HostValue) : ∃ stored?, KeyFate (.primitive p) v stored? := by
  have htakes : p.takes = [.int] := by
    cases p <;> first | rfl | cases h
  have haccept : builtin.acceptsValue v (.primitive p) = .ok (v.kind?.any [.int].contains) := by
    rw [acceptsValue_builtin, ElementType.takesKind, ElementType.takes, htakes]
  cases v with
  | int n =>
    have hd := p.toDatum_integer h n
    cases hr : k.ofInt? n with
    | some r =>
      rw [hr] at hd
      exact ⟨_, .stored haccept hd⟩
    | none =>
      rw [hr] at hd
      exact ⟨_, .overflow haccept rfl (Primitive.isInteger_of_integerKind h) hd⟩
  | _ => exact ⟨_, .mistyped haccept⟩

/-- There is nothing else for an ordered primitive. -/
theorem exists_keyFate {t : ElementType} (h : t.isKey = true) (v : HostValue) :
    ∃ stored?, KeyFate t v stored? := by
  cases t with
  | primitive p =>
    cases p with
    | str =>
      cases v with
      | str s => exact ⟨_, .stored rfl rfl⟩
      | _ => exact ⟨_, .mistyped rfl⟩
    | int32 => exact exists_keyFate_integer rfl v
    | uint32 => exact exists_keyFate_integer rfl v
    | int64 => exact exists_keyFate_integer rfl v
    | uint64 => exact exists_keyFate_integer rfl v
    | float32 =>
      cases v with
      | float x => exact ⟨_, .stored rfl rfl⟩
      | int n => exact ⟨_, .stored rfl rfl⟩
      | _ => exact ⟨_, .mistyped rfl⟩
    | float64 =>
      cases v with
      | float x => exact ⟨_, .stored rfl rfl⟩
      | int n => exact ⟨_, .stored rfl rfl⟩
      | _ => exact ⟨_, .mistyped rfl⟩
    | complex128 => cases h
  | vector _ => cases h
  | set _ => cases h
  | map _ _ => cases h

theorem KeyFate.of_toDatum {t : ElementType} {v : HostValue} {d : Datum}
    (h : t.toDatum v = .ok d) : KeyFate t v (some d) := .stored (accepted_of_toDatum h) h

/-- The lookup of the built-in catalog gives the storage form. -/
theorem KeyFate.lookup {t : ElementType} {v : HostValue} {stored? : Option Datum}
    (h : KeyFate t v stored?) : builtin.lookup v t = .ok stored? := by
  unfold Catalog.lookup
  cases h with
  | mistyped h =>
    rw [h]
    rfl
  | overflow h _ _ hd =>
    rw [h, hd]
    rfl
  | stored h hd =>
    rw [h, hd]
    rfl

/-! ## Keys that are not there -/

theorem Ordered.erase_of_not_contains {α : Type} {key : α → Datum} {k : Datum} {xs : List α}
    (h : k ∉ xs.map key) : Ordered.erase key k xs = xs := by
  refine List.filter_eq_self.mpr fun x hx => ?_
  rw [bne_iff_ne]
  intro he
  exact h (List.mem_map.mpr ⟨x, hx, (Datum.eq_of_compare he).symm⟩)

/-- Removing a key that is not there changes nothing. -/
theorem Content.erase_of_not_contains {content : Content} {k : Datum}
    (h : content.contains k = false) : content.erase k = content := by
  have hk : k ∉ content.keys := by
    intro hk
    have hc : content.contains k = true := Ordered.contains_iff.mpr (by rwa [List.map_id])
    rw [hc] at h
    cases h
  cases content with
  | set items =>
    exact congrArg Content.set (Ordered.erase_of_not_contains (by rwa [List.map_id]))
  | map entries => exact congrArg Content.map (Ordered.erase_of_not_contains hk)

/-- A map holds exactly the keys that have a value. -/
theorem Content.contains_map (entries : List (Datum × Datum)) (k : Datum) :
    (Content.map entries).contains k = ((Content.map entries).get? k).isSome := by
  rw [Content.contains, Content.get?, Content.keys, Ordered.contains, Ordered.find?, Ordered.find?,
    List.find?_map, Option.isSome_map, Option.isSome_map]
  rfl

end WrapGen
