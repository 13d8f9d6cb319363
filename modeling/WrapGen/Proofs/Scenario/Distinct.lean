import WrapGen.Proofs.Scenario.Samples
import WrapGen.Proofs.Value.Equivalence

/-!
# Samples are told apart

The samples of every type differ from each other as literals and as values of the host
language (`samples_usable`). For composites this comes from the places that they pick
alone: if the samples of the elements are told apart, a vector tells in which places its
items were picked, a set tells which places, and a dict tells the places of its keys.

Literals that are equal have equal values (`HostValue.matches_ofLiteral`), so values that
are told apart come from literals that are.
-/
namespace WrapGen

open Code WrapGen.Bundle

/-! ## Values of equal literals -/

namespace HostValue

mutual

/-- Equal literals have values that are equal from either side. -/
theorem matches_ofLiteral : ∀ {l m : Literal}, l.same m = true →
    (ofLiteral l).Matches (ofLiteral m)
  | .none, .none, _ => fun _ => rfl
  | .bool a, .bool b, h => by
    cases eq_of_beq h
    exact fun _ => beq_self_eq_true _
  | .int _, .int _, h => fun _ => h
  | .float _, .float _, h => fun _ => h
  | .complex _ _, .complex _ _, h => fun _ => h
  | .str _, .str _, h => fun _ => h
  | .list _, .list _, h => .list (forall₂_ofLiterals h)
  | .set _, .set _, h => .set (forall₂_ofLiterals h) (List.Perm.refl _)
  | .dict _, .dict _, h => .dict (forall₂_ofPairs h) (List.Perm.refl _)

theorem forall₂_ofLiterals : ∀ {ls ms : List Literal}, Literal.sameAll ls ms = true →
    List.Forall₂ Matches (ofLiterals ls) (ofLiterals ms)
  | [], [], _ => .nil
  | l :: ls, m :: ms, h => by
    rw [Literal.sameAll, Bool.and_eq_true] at h
    exact .cons (matches_ofLiteral h.1) (forall₂_ofLiterals h.2)

theorem forall₂_ofPairs : ∀ {ps qs : List (Literal × Literal)}, Literal.samePairs ps qs = true →
    List.Forall₂ (fun p q => Matches p.1 q.1 ∧ Matches p.2 q.2) (ofPairs ps) (ofPairs qs)
  | [], [], _ => .nil
  | (k, v) :: ps, (l, w) :: qs, h => by
    rw [Literal.samePairs, Bool.and_eq_true, Bool.and_eq_true] at h
    exact .cons ⟨matches_ofLiteral h.1.1, matches_ofLiteral h.1.2⟩ (forall₂_ofPairs h.2)

end

end HostValue

/-! ## Picks of distinct values -/

/-- No two values of a family are equal. -/
def ToldApart {ι : Type} (f : ι → HostValue) : Prop :=
  ∀ i j, (f i).same (f j) = true → i = j

namespace ToldApart

variable {ι κ : Type} {f : ι → HostValue} {g : κ → HostValue}

/-- A list tells where its items were picked. -/
theorem eq_of_same_list (hf : ToldApart f) {ps qs : List ι}
    (h : (HostValue.list (ps.map f)).same (.list (qs.map f)) = true) : ps = qs := by
  rw [HostValue.same_list_iff, List.forall₂_map_left_iff, List.forall₂_map_right_iff] at h
  exact List.forall₂_eq_eq_eq ▸ h.imp fun i j => hf i j

/-- A set tells from which places its members were picked. -/
theorem perm_of_same_set (hf : ToldApart f) {ps qs : List ι} (hps : ps.Nodup)
    (h : (HostValue.set (ps.map f)).same (.set (qs.map f)) = true) : ps.Perm qs := by
  obtain ⟨hlength, hmembers⟩ := HostValue.same_set_iff.mp h
  rw [List.length_map, List.length_map] at hlength
  have hsubset : ps ⊆ qs := by
    intro i hi
    obtain ⟨v, hv, hsame⟩ := hmembers _ (List.mem_map_of_mem hi)
    obtain ⟨j, hj, rfl⟩ := List.mem_map.mp hv
    exact hf j i hsame ▸ hj
  exact (List.subperm_of_subset hps hsubset).perm_of_length_le hlength.ge

/-- A dict tells from which places its keys were picked. -/
theorem perm_of_same_dict (hf : ToldApart f) {ps qs : List (ι × κ)}
    (hps : (ps.map Prod.fst).Nodup)
    (h : (HostValue.dict (ps.map (Prod.map f g))).same (.dict (qs.map (Prod.map f g))) = true) :
    (ps.map Prod.fst).Perm (qs.map Prod.fst) := by
  obtain ⟨hlength, hentries⟩ := HostValue.same_dict_iff.mp h
  rw [List.length_map, List.length_map] at hlength
  have hsubset : ps.map Prod.fst ⊆ qs.map Prod.fst := by
    intro i hi
    obtain ⟨p, hp, rfl⟩ := List.mem_map.mp hi
    obtain ⟨e, he, hsame, -⟩ := hentries _ (List.mem_map_of_mem hp)
    obtain ⟨q, hq, rfl⟩ := List.mem_map.mp he
    exact List.mem_map.mpr ⟨q, hq, (hf p.1 q.1 hsame).symm⟩
  refine (List.subperm_of_subset hps hsubset).perm_of_length_le ?_
  rw [List.length_map, List.length_map, hlength]

end ToldApart

/-! ## Samples of every type -/

open Samples

/-- The values of the samples of a type. -/
def sampleValue (t : ElementType) (i : Fin 4) : HostValue :=
  .ofLiteral (sampleAt (ofType t) i)

theorem length_ofType (t : ElementType) : (ofType t).length = 4 := by
  obtain ⟨stored, h⟩ := exists_sampled t
  exact h.length

theorem sampleValue_vector (e : ElementType) (i : Fin 4) :
    sampleValue (.vector e) i = .list ((vectorPlaces i).map (sampleValue e)) := by
  rw [sampleValue, sampleAt_vector (length_ofType e), HostValue.ofLiteral,
    HostValue.ofLiterals_eq_map, List.map_map]
  rfl

theorem sampleValue_set (e : ElementType) (i : Fin 4) :
    sampleValue (.set e) i = .set ((setPlaces i).map (sampleValue e)) := by
  rw [sampleValue, sampleAt_set (length_ofType e), HostValue.ofLiteral,
    HostValue.ofLiterals_eq_map, List.map_map]
  rfl

theorem sampleValue_map (k t : ElementType) (i : Fin 4) :
    sampleValue (.map k t) i =
      .dict ((mapPlaces i).map (Prod.map (sampleValue k) (sampleValue t))) := by
  rw [sampleValue, sampleAt_map (length_ofType k) (length_ofType t), HostValue.ofLiteral,
    HostValue.ofPairs_eq_map, List.map_map]
  rfl

theorem toldApart_primitive (p : Primitive) : ToldApart (sampleValue (.primitive p)) := by
  cases p <;> unfold ToldApart <;> decide

/-- The samples of a type have distinct values, whatever it is nested from. -/
theorem toldApart_sampleValue : ∀ t : ElementType, ToldApart (sampleValue t)
  | .primitive p => toldApart_primitive p
  | .vector e => fun i j h => by
    rw [sampleValue_vector, sampleValue_vector] at h
    exact eq_of_vectorPlaces_eq i j ((toldApart_sampleValue e).eq_of_same_list h)
  | .set e => fun i j h => by
    rw [sampleValue_set, sampleValue_set] at h
    exact eq_of_setPlaces_perm i j
      ((toldApart_sampleValue e).perm_of_same_set (nodup_setPlaces i) h)
  | .map k t => fun i j h => by
    rw [sampleValue_map, sampleValue_map] at h
    exact eq_of_mapPlaces_perm i j
      ((toldApart_sampleValue k).perm_of_same_dict (nodup_mapPlaces i) h)

/-- A place that a list has is not counted around. -/
theorem sampleAt_eq_getElem {ls : List Literal} (i : Fin ls.length) : sampleAt ls i = ls[i] := by
  rw [sampleAt, pick?, Nat.mod_eq_of_lt i.isLt, List.getElem?_eq_getElem i.isLt]
  rfl

/-- Every type has four samples. They differ as literals and as host values, and each comes
back from storage as a value that equals it. -/
theorem samples_usable (t : ElementType) : ∃ ls, Samples.builtin.values t = .ok ls ∧
    4 ≤ ls.length ∧
    (∀ i j : Fin ls.length, i ≠ j → ls[i].same ls[j] = false ∧
      (HostValue.ofLiteral ls[i]).same (.ofLiteral ls[j]) = false) ∧
    ∀ l ∈ ls, ∃ d w, t.toDatum (.ofLiteral l) = .ok d ∧ d.toHost t = .ok w ∧
      w.same (.ofLiteral l) = true := by
  obtain ⟨stored, hlength, hkept, -⟩ := exists_sampled t
  have hvalue : ∀ i : Fin (ofType t).length,
      HostValue.ofLiteral (ofType t)[i] = sampleValue t (i.cast hlength) := fun i =>
    congrArg HostValue.ofLiteral (sampleAt_eq_getElem i).symm
  refine ⟨ofType t, rfl, hlength.ge, fun i j hne => ?_, fun l hl => ?_⟩
  · have hvalues : (HostValue.ofLiteral (ofType t)[i]).same (.ofLiteral (ofType t)[j]) = false := by
      rw [Bool.eq_false_iff, hvalue, hvalue]
      intro hsame
      exact hne (Fin.cast_injective hlength (toldApart_sampleValue t _ _ hsame))
    refine ⟨Bool.eq_false_iff.mpr fun hsame => ?_, hvalues⟩
    exact Bool.eq_false_iff.mp hvalues (HostValue.matches_ofLiteral hsame false)
  · obtain ⟨i, rfl⟩ := List.mem_iff_get.mp hl
    obtain ⟨-, hstored, w, hw, hmatches⟩ := hkept (i.cast hlength)
    have hsample : sampleAt (ofType t) (i.cast hlength) = (ofType t).get i := sampleAt_eq_getElem i
    rw [hsample] at hstored hmatches
    exact ⟨_, w, hstored, hw, hmatches false⟩

end WrapGen
