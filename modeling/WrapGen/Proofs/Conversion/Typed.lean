import WrapGen.Proofs.Conversion.Loaded
import WrapGen.Proofs.Value.Ordered

/-!
# Conversion into storage gives values of the type

What a host value is converted to is a storage value of the type at every depth:
an integer has the width and the sign of its primitive, and the items of a
container are of the type of its elements. Sets and maps bring their items in
order, which adds none.

* `hasType_of_toDatum`: the main statement.
-/
namespace WrapGen

namespace Datum

theorem hasTypeAll_iff {t : ElementType} : ∀ {items : List Datum},
    hasTypeAll items t = true ↔ ∀ d ∈ items, d.hasType t = true
  | [] => ⟨fun _ => List.forall_mem_nil _, fun _ => rfl⟩
  | d :: ds => by
    rw [hasTypeAll, Bool.and_eq_true, hasTypeAll_iff, List.forall_mem_cons]

theorem hasTypeEntries_iff {k t : ElementType} : ∀ {entries : List (Datum × Datum)},
    hasTypeEntries entries k t = true ↔
      ∀ e ∈ entries, e.1.hasType k = true ∧ e.2.hasType t = true
  | [] => ⟨fun _ => List.forall_mem_nil _, fun _ => rfl⟩
  | (a, b) :: es => by
    rw [hasTypeEntries, Bool.and_eq_true, Bool.and_eq_true, hasTypeEntries_iff,
      List.forall_mem_cons]

end Datum

/-- Integers are stored with the width and the sign of the primitive. -/
theorem Primitive.hasType_integer {p : Primitive} {k : IntegerKind} (h : p.integerKind? = some k)
    (n : k.Ranged) : (Datum.integer k n).hasType (.primitive p) = true := by
  show (p.integerKind? == some k) = true
  rw [h, beq_self_eq_true]

theorem Primitive.hasType_of_toDatum {p : Primitive} {v : HostValue} {d : Datum}
    (h : p.toDatum v = .ok d) : d.hasType (.primitive p) = true := by
  unfold toDatum at h
  split at h
  case h_9 =>
    split at h
    · rename_i k hk
      split at h
      · cases h
        exact hasType_integer hk _
      · cases h
    · cases h
  all_goals first
    | cases h; rfl
    | cases h

namespace ElementType

/-- Items that are converted one by one are of the type. -/
theorem forall_hasType_of_forall₂ {t : ElementType} {vs : List HostValue} {ds : List Datum}
    (ht : ∀ {v d}, t.toDatum v = .ok d → d.hasType t = true)
    (h : List.Forall₂ (fun v d => t.toDatum v = .ok d) vs ds) : ∀ d ∈ ds, d.hasType t = true := by
  intro d hd
  obtain ⟨v, -, hv⟩ := forall₂_mem_right h hd
  exact ht hv

/-- What a host value is converted to is of the type. -/
theorem hasType_of_toDatum : ∀ {t : ElementType} {v : HostValue} {d : Datum},
    t.toDatum v = .ok d → d.hasType t = true
  | .primitive p, v, d, h => Primitive.hasType_of_toDatum h
  | .vector e, v, d, h => by
    obtain ⟨vs, ds, -, hds, rfl⟩ := Catalog.items_of_toDatum_vector h
    exact Datum.hasTypeAll_iff.mpr (forall_hasType_of_forall₂ hasType_of_toDatum hds)
  | .set e, v, d, h => by
    cases v with
    | set items =>
      obtain ⟨ds, hds, h⟩ := bind_eq_ok h
      cases h
      refine Datum.hasTypeAll_iff.mpr fun d hd => ?_
      exact forall_hasType_of_forall₂ hasType_of_toDatum (forall₂_of_mapM hds) d
        (Ordered.mem_of_mem_ofList hd)
    | _ => cases h
  | .map k t, v, d, h => by
    cases v with
    | dict entries =>
      obtain ⟨es, hes, h⟩ := bind_eq_ok h
      cases h
      refine Datum.hasTypeEntries_iff.mpr fun e he => ?_
      obtain ⟨entry, -, hentry⟩ :=
        forall₂_mem_right (forall₂_of_mapM hes) (Ordered.mem_of_mem_ofList he)
      obtain ⟨x, hx, hentry⟩ := bind_eq_ok hentry
      obtain ⟨y, hy, hentry⟩ := bind_eq_ok hentry
      cases hentry
      exact ⟨hasType_of_toDatum hx, hasType_of_toDatum hy⟩
    | _ => cases h

end ElementType

end WrapGen
