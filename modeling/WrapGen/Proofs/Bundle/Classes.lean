import WrapGen.Proofs.Bundle.Parts
import WrapGen.Proofs.Naming.Distinct

/-!
# The extension classes in generated code

An implementation has three classes, of which one holds the methods on the
container. Its name tells it from the other two (`IsSetClass.eq`, `IsMapClass.eq`),
it is there for every type of elements (`exists_setClass`, `exists_mapClass`), and
it is in every bundle for the type (`IsSetClass.mem_bundle`, `IsMapClass.mem_bundle`).
-/
namespace WrapGen.Bundle

open Code

/-! ## The three classes -/

/-- The classes of a family go by three names. -/
theorem family_names_ne (head parts storage test : String) :
    let n := WrapperNames.family head parts storage test
    n.iteratorClass ≠ n.extensionClass ∧ n.publicClass ≠ n.extensionClass := by
  constructor <;> intro h
  · have hl := congrArg String.length h
    simp only [WrapperNames.family, String.length_append, show "Iter".length = 4 from rfl] at hl
    omega
  · have hl := congrArg String.length h
    simp only [WrapperNames.family, String.length_append, show "_".length = 1 from rfl] at hl
    omega

/-- A class with the name of the second of three is the second. -/
theorem eq_of_mem_classes {text : String} {a b c d : ClassDef} (ha : a.name ≠ b.name)
    (hd : d.name ≠ b.name)
    (hm : Item.classDef c ∈ [.comment text, .classDef a, .classDef b, .classDef d])
    (hn : c.name = b.name) : c = b := by
  simp only [List.mem_cons, reduceCtorEq, Item.classDef.injEq, List.not_mem_nil, or_false,
    false_or] at hm
  rcases hm with rfl | rfl | rfl
  · exact absurd hn ha
  · rfl
  · exact absurd hn hd

/-! ## Sets -/

/-- The class `c` is the extension class that is generated for the sets of `e`. -/
def IsSetClass (g : Generator) (e : ElementType) (c : ClassDef) : Prop :=
  ∃ names f, SetNames.of g.catalog e = .ok names ∧ g.setImplementation names e = .ok f ∧
    .classDef c ∈ f ∧ c.name = names.wrapper.extensionClass

section
variable {g : Generator} {e : ElementType}

/-- The class is made of the methods for its elements. -/
theorem IsSetClass.eq {c : ClassDef} (h : IsSetClass g e c) : ∃ names value accepted guards,
    Argument.of g.catalog "value" e names.element = .ok value ∧
      typeCheck g.catalog value.expr e = .ok accepted ∧
      insertionGuard g value.expr e "values" = .ok guards ∧
      c = setClass (SetNames.wrapper names) value accepted guards := by
  obtain ⟨names, f, hn, hf, hm, hc⟩ := h
  obtain ⟨value, accepted, guards, iterator, hv, ha, hg, hi, rfl⟩ :=
    Generator.setImplementation_eq_ok hf
  refine ⟨names, value, accepted, guards, hv, ha, hg, ?_⟩
  obtain ⟨parts, element, -, -, rfl⟩ := SetNames.of_eq_ok hn
  obtain ⟨hie, hpe⟩ := family_names_ne "Set" parts ("cpp_set[" ++ element.storage ++ "]")
    ("test_set_" ++ e.ident)
  exact eq_of_mem_classes (fun h => hie ((classDef_name hi).symm.trans h)) hpe hm hc

theorem exists_setClass (samples : Samples) (insertion : Insertion) (e : ElementType) :
    ∃ c, IsSetClass ⟨.builtin, samples, insertion⟩ e c := by
  obtain ⟨names, hn⟩ := (demands_setNames e).exists_ok
  let g : Generator := ⟨.builtin, samples, insertion⟩
  obtain ⟨f, hf⟩ : ∃ f, g.setImplementation names e = .ok f :=
    (g.demands_setImplementation names e).exists_ok
  obtain ⟨value, accepted, guards, iterator, -, -, -, -, rfl⟩ :=
    Generator.setImplementation_eq_ok hf
  exact ⟨_, names, _, hn, hf, List.mem_cons_of_mem _ (List.mem_cons_of_mem _ List.mem_cons_self),
    rfl⟩

/-- The class is in every bundle for the sets. -/
theorem IsSetClass.mem_bundle {c : ClassDef} (h : IsSetClass g e c) {b : Bundle}
    (hb : g.setWrapper e = .ok b) : .classDef c ∈ b.implementation := by
  obtain ⟨names, f, hn, hf, hm, -⟩ := h
  obtain ⟨names', f', samples, hn', hf', -, rfl⟩ := Generator.setWrapper_eq_ok hb
  cases hn.symm.trans hn'
  cases hf.symm.trans hf'
  exact hm

end

/-! ## Maps -/

/-- The class `c` is the extension class that is generated for the maps from `k` to `t`. -/
def IsMapClass (g : Generator) (k t : ElementType) (c : ClassDef) : Prop :=
  ∃ names f, MapNames.of g.catalog k t = .ok names ∧ g.mapImplementation names k t = .ok f ∧
    .classDef c ∈ f ∧ c.name = names.wrapper.extensionClass

section
variable {g : Generator} {k t : ElementType}

/-- The class is made of the methods for its keys and values. -/
theorem IsMapClass.eq {c : ClassDef} (h : IsMapClass g k t c) :
    ∃ names key value found accepted keyGuards valueGuards,
      Argument.of g.catalog "key" k (MapNames.key names) = .ok key ∧
      Argument.of g.catalog "value" t names.value = .ok value ∧
      g.catalog.toHost (.name "v") t = .ok found ∧
      typeCheck g.catalog key.expr k = .ok accepted ∧
      insertionGuard g key.expr k "keys" = .ok keyGuards ∧
      insertionGuard g value.expr t "values" = .ok valueGuards ∧
      c = mapClass names.wrapper key value accepted (keyGuards ++ valueGuards)
        names.value.storage found := by
  obtain ⟨names, f, hn, hf, hm, hc⟩ := h
  obtain ⟨key, value, found, accepted, keyGuards, valueGuards, iterator, hk, hv, hh, ha, hkg, hvg,
    hi, rfl⟩ := Generator.mapImplementation_eq_ok hf
  refine ⟨names, key, value, found, accepted, keyGuards, valueGuards, hk, hv, hh, ha, hkg, hvg, ?_⟩
  obtain ⟨keyPart, valuePart, keyNames, valueNames, -, -, -, -, rfl⟩ := MapNames.of_eq_ok hn
  obtain ⟨hie, hpe⟩ := family_names_ne "Map" (keyPart ++ valuePart)
    ("cpp_map[" ++ keyNames.storage ++ ", " ++ valueNames.storage ++ "]")
    ("test_map_" ++ k.ident ++ "_" ++ t.ident)
  exact eq_of_mem_classes (fun h => hie ((classDef_name hi).symm.trans h)) hpe hm hc

theorem exists_mapClass (samples : Samples) (insertion : Insertion) (k t : ElementType) :
    ∃ c, IsMapClass ⟨.builtin, samples, insertion⟩ k t c := by
  obtain ⟨names, hn⟩ := (demands_mapNames k t).exists_ok
  let g : Generator := ⟨.builtin, samples, insertion⟩
  obtain ⟨f, hf⟩ : ∃ f, g.mapImplementation names k t = .ok f :=
    (g.demands_mapImplementation names k t).exists_ok
  obtain ⟨key, value, found, accepted, keyGuards, valueGuards, iterator, -, -, -, -, -, -, -,
    rfl⟩ := Generator.mapImplementation_eq_ok hf
  exact ⟨_, names, _, hn, hf, List.mem_cons_of_mem _ (List.mem_cons_of_mem _ List.mem_cons_self),
    rfl⟩

/-- The class is in every bundle for the maps. -/
theorem IsMapClass.mem_bundle {c : ClassDef} (h : IsMapClass g k t c) {b : Bundle}
    (hb : g.mapWrapper k t = .ok b) : .classDef c ∈ b.implementation := by
  obtain ⟨names, f, hn, hf, hm, -⟩ := h
  obtain ⟨names', f', keys, values, hn', hf', -, -, rfl⟩ := Generator.mapWrapper_eq_ok hb
  cases hn.symm.trans hn'
  cases hf.symm.trans hf'
  exact hm

end

end WrapGen.Bundle
