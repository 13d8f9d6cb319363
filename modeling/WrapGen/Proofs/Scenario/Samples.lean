import Mathlib.Data.Fin.VecNotation
import WrapGen.Bundle.Basic
import WrapGen.Proofs.Value.Matching

/-!
# Samples

The built-in samples of every element type are four literals whose values are
kept in storage, each in a form of its own (`exists_sampled`).

Samples of a composite pick samples of its elements at fixed places. What makes
them distinct is the places alone: no two vectors pick in the same way, no two
sets pick the same places, and no two maps pick their keys at the same places.
-/
namespace WrapGen

open Code WrapGen.Bundle

/-! ## Places -/

namespace Samples

variable {base keys values : List Literal}

theorem pick?_eq (h : base.length = 4) (i : Nat) : pick? base i = some (sampleAt base i) := by
  have hlt : i % base.length < base.length := Nat.mod_lt _ (by omega)
  rw [sampleAt, pick?, List.getElem?_eq_getElem hlt]
  rfl

theorem pickAll_eq (h : base.length = 4) (places : List Nat) :
    pickAll base places = places.map (sampleAt base) := by
  unfold pickAll
  rw [funext (pick?_eq h), List.filterMap_eq_map']

theorem pickPairs_eq (hk : keys.length = 4) (hv : values.length = 4) (places : List (Nat × Nat)) :
    places.filterMap (pickPair? keys values) =
      places.map fun place => (sampleAt keys place.1, sampleAt values place.2) := by
  have hpair : pickPair? keys values =
      some ∘ fun place => (sampleAt keys place.1, sampleAt values place.2) := by
    funext place
    rw [pickPair?, pick?_eq hk, pick?_eq hv]
    rfl
  rw [hpair, List.filterMap_eq_map]

/-- Where the samples of vectors are picked. -/
def vectorPlaces : Fin 4 → List (Fin 4) := ![[0, 1], [1, 2, 3], [2], [3, 0]]

/-- Where the samples of sets are picked. -/
def setPlaces : Fin 4 → List (Fin 4) := ![[0, 1], [2], [1, 3], [0, 2, 3]]

/-- Where the samples of maps are picked, keys and values. -/
def mapPlaces : Fin 4 → List (Fin 4 × Fin 4) :=
  ![[(0, 0)], [(1, 1), (2, 2)], [(3, 3)], [(0, 3), (2, 1)]]

theorem eq_of_vectorPlaces_eq : ∀ i j, vectorPlaces i = vectorPlaces j → i = j := by decide

theorem eq_of_setPlaces_perm : ∀ i j, (setPlaces i).Perm (setPlaces j) → i = j := by decide

theorem eq_of_mapPlaces_perm : ∀ i j,
    ((mapPlaces i).map Prod.fst).Perm ((mapPlaces j).map Prod.fst) → i = j := by decide

theorem nodup_setPlaces : ∀ i, (setPlaces i).Nodup := by decide

theorem nodup_mapPlaces : ∀ i, ((mapPlaces i).map Prod.fst).Nodup := by decide

/-! ## What the samples are -/

theorem sampleAt_reverse : ∀ {ls : List Literal}, ls.length = 4 → ∀ i : Fin 4,
    sampleAt ls.reverse i = sampleAt ls i.rev
  | [_, _, _, _], _, 0 | [_, _, _, _], _, 1 | [_, _, _, _], _, 2 | [_, _, _, _], _, 3 => rfl

theorem sampleAt_vector {e : ElementType} (h : (ofType e).length = 4) (i : Fin 4) :
    sampleAt (ofType (.vector e)) i =
      .list ((vectorPlaces i).map fun j : Fin 4 => sampleAt (ofType e) j) := by
  rw [ofType]
  simp only [pickAll_eq h]
  match i with
  | 0 | 1 | 2 | 3 => rfl

theorem sampleAt_set {e : ElementType} (h : (ofType e).length = 4) (i : Fin 4) :
    sampleAt (ofType (.set e)) i =
      .set ((setPlaces i).map fun j : Fin 4 => sampleAt (ofType e) j) := by
  rw [ofType]
  simp only [pickAll_eq h]
  match i with
  | 0 | 1 | 2 | 3 => rfl

theorem sampleAt_map {k t : ElementType} (hk : (ofType k).length = 4)
    (ht : (ofType t).length = 4) (i : Fin 4) :
    sampleAt (ofType (.map k t)) i = .dict ((mapPlaces i).map fun place =>
      (sampleAt (ofType k) place.1, sampleAt (ofType t) place.2)) := by
  rw [ofType]
  simp only [pickPairs_eq hk ht]
  match i with
  | 0 | 1 | 2 | 3 => rfl

end Samples

/-! ## Distinct kept samples -/

open Samples

/-- Four literals of a type whose values are kept in distinct forms. -/
structure Sampled (t : ElementType) (ls : List Literal) (stored : Fin 4 → Datum) : Prop where
  length : ls.length = 4
  kept : ∀ i : Fin 4, StoredAs t (.ofLiteral (sampleAt ls i)) (stored i)
  injective : Function.Injective stored

namespace Sampled

variable {t k e : ElementType} {ls : List Literal} {stored keys values : Fin 4 → Datum}

theorem reverse (h : Sampled t ls stored) : Sampled t ls.reverse (stored ∘ Fin.rev) := by
  refine ⟨by rw [List.length_reverse, h.length], fun i => ?_, h.injective.comp Fin.rev_injective⟩
  rw [sampleAt_reverse h.length]
  exact h.kept i.rev

/-- The values picked at some places are kept as the data picked there. -/
theorem picked (h : Sampled t ls stored) (places : List (Fin 4)) :
    List.Forall₂ (StoredAs t) (HostValue.ofLiterals (places.map fun j : Fin 4 => sampleAt ls j))
      (places.map stored) := by
  rw [HostValue.ofLiterals_eq_map, List.map_map, List.forall₂_map_left_iff,
    List.forall₂_map_right_iff, List.forall₂_same]
  exact fun i _ => h.kept i

theorem vector (h : Sampled e (ofType e) stored) : Sampled (.vector e) (ofType (.vector e))
    fun i => .vector ((vectorPlaces i).map stored) := by
  refine ⟨rfl, fun i => ?_, fun i j hij => ?_⟩
  · rw [sampleAt_vector h.length]
    exact .list (h.picked (vectorPlaces i))
  · exact eq_of_vectorPlaces_eq i j (List.map_injective_iff.mpr h.injective (Datum.vector.inj hij))

theorem set (h : Sampled e (ofType e) stored) : Sampled (.set e) (ofType (.set e))
    fun i => .set (Ordered.ofList id ((setPlaces i).map stored)) := by
  have hnodup : ∀ i, ((setPlaces i).map stored).Nodup := fun i =>
    (nodup_setPlaces i).map h.injective
  have horder : ∀ i, (Ordered.ofList id ((setPlaces i).map stored)).Perm
      ((setPlaces i).map stored) := fun i =>
    Ordered.ofList_perm (by rw [List.map_id]; exact hnodup i)
  refine ⟨rfl, fun i => ?_, fun i j hij => ?_⟩
  · rw [sampleAt_set h.length]
    exact .set (h.picked (setPlaces i)) (hnodup i)
  · have hperm : ((setPlaces i).map stored).Perm ((setPlaces j).map stored) :=
      (horder i).symm.trans (Datum.set.inj hij ▸ horder j)
    exact eq_of_setPlaces_perm i j ((List.map_perm_map_iff h.injective).mp hperm)

theorem map (hk : Sampled k (ofType k) keys) (ht : Sampled t (ofType t) values) :
    Sampled (.map k t) (ofType (.map k t))
      fun i => .map (Ordered.ofList Prod.fst ((mapPlaces i).map (Prod.map keys values))) := by
  have hkeys : ∀ i, ((mapPlaces i).map (Prod.map keys values)).map Prod.fst =
      ((mapPlaces i).map Prod.fst).map keys := by
    intro i
    rw [List.map_map, List.map_map]
    rfl
  have hnodup : ∀ i, (((mapPlaces i).map (Prod.map keys values)).map Prod.fst).Nodup := fun i =>
    hkeys i ▸ (nodup_mapPlaces i).map hk.injective
  refine ⟨rfl, fun i => ?_, fun i j hij => ?_⟩
  · rw [sampleAt_map hk.length ht.length]
    refine .dict ?_ (hnodup i)
    rw [HostValue.ofPairs_eq_map, List.map_map, List.forall₂_map_left_iff,
      List.forall₂_map_right_iff, List.forall₂_same]
    exact fun place _ => ⟨hk.kept place.1, ht.kept place.2⟩
  · have hperm : ((mapPlaces i).map (Prod.map keys values)).Perm
        ((mapPlaces j).map (Prod.map keys values)) :=
      (Ordered.ofList_perm (hnodup i)).symm.trans
        (Datum.map.inj hij ▸ Ordered.ofList_perm (hnodup j))
    have hfst := hperm.map Prod.fst
    rw [hkeys, hkeys, List.map_perm_map_iff hk.injective] at hfst
    exact eq_of_mapPlaces_perm i j hfst

end Sampled

/-! ## Primitives -/

theorem exists_storedAs_sample (p : Primitive) : ∀ i : Fin 4,
    ∃ d, StoredAs (.primitive p) (.ofLiteral (sampleAt (ofPrimitive p) i)) d := by
  cases p
  all_goals
    intro i
    match i with
    | 0 | 1 | 2 | 3 => exact ⟨_, rfl, rfl, _, rfl, by unfold HostValue.Matches; decide⟩

/-- The samples of a primitive are converted to distinct data. -/
theorem eq_of_toDatum_sample (p : Primitive) : ∀ i j : Fin 4,
    (p.toDatum (.ofLiteral (sampleAt (ofPrimitive p) i))).toOption =
      (p.toDatum (.ofLiteral (sampleAt (ofPrimitive p) j))).toOption → i = j := by
  cases p <;> decide

theorem exists_sampled_primitive (p : Primitive) :
    ∃ stored, Sampled (.primitive p) (ofPrimitive p) stored := by
  choose stored hkept using exists_storedAs_sample p
  have hstored : ∀ i : Fin 4, p.toDatum (.ofLiteral (sampleAt (ofPrimitive p) i)) =
      .ok (stored i) := fun i => (hkept i).stored
  refine ⟨stored, ?_, hkept, fun i j hij => eq_of_toDatum_sample p i j ?_⟩
  · cases p <;> rfl
  · rw [hstored, hstored, hij]

/-! ## Every type -/

/-- Every type has samples, whatever it is nested from. -/
theorem exists_sampled : ∀ t : ElementType, ∃ stored, Sampled t (ofType t) stored
  | .primitive p => exists_sampled_primitive p
  | .vector e => (exists_sampled e).imp' _ fun _ h => h.vector
  | .set e => (exists_sampled e).imp' _ fun _ h => h.set
  | .map k t => by
    obtain ⟨keys, hk⟩ := exists_sampled k
    obtain ⟨values, ht⟩ := exists_sampled t
    exact ⟨_, hk.map ht⟩

end WrapGen
