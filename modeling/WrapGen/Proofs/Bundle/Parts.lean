import WrapGen.Bundle.Converters
import WrapGen.Bundle.MapWrapper
import WrapGen.Bundle.SetWrapper
import WrapGen.Proofs.Results

/-!
# What bundles are made of

A bundle that is made says how: its names, the conversions of its types and the samples
were all found, and its fragments are put together from them. What holds of these parts
is carried to the bundle without going through the computation again.

* `SetNames.of_eq_ok`, `MapNames.of_eq_ok`, `ConverterNames.ofSet_eq_ok`,
  `ConverterNames.ofMap_eq_ok`: what names are spelled from.
* `Argument.of_eq_ok`, `typeCheck_eq_ok`, `insertionGuard_eq_ok`: the pieces around arguments.
* `Generator.setWrapper_eq_ok`, `Generator.mapWrapper_eq_ok`: the parts of wrappers.
* `Generator.setConverters_eq_ok`, `Generator.mapConverters_eq_ok`,
  `Generator.converters_eq_ok`: the parts of converters.
-/
namespace WrapGen

open Code

namespace Bundle

section
variable {c : Catalog} {t k v : ElementType}

/-! ## Names -/

theorem ElementNames.of_eq_ok {names : ElementNames} (h : ElementNames.of c t = .ok names) :
    c.storageType t = .ok names.storage ∧ c.humanName t = .ok names.human := by
  obtain ⟨storage, hs, h⟩ := bind_eq_ok h
  obtain ⟨human, hh, h⟩ := bind_eq_ok h
  cases h
  exact ⟨hs, hh⟩

theorem SetNames.of_eq_ok {names : SetNames} (h : SetNames.of c t = .ok names) :
    ∃ parts element, c.classPart t = .ok parts ∧ ElementNames.of c t = .ok element ∧
      names =
        { wrapper := .family "Set" parts ("cpp_set[" ++ element.storage ++ "]")
            ("test_set_" ++ t.ident)
          element } := by
  obtain ⟨parts, hp, h⟩ := bind_eq_ok h
  obtain ⟨element, he, h⟩ := bind_eq_ok h
  cases h
  exact ⟨parts, element, hp, he, rfl⟩

theorem MapNames.of_eq_ok {names : MapNames} (h : MapNames.of c k v = .ok names) :
    ∃ keyPart valuePart key value, c.classPart k = .ok keyPart ∧ c.classPart v = .ok valuePart ∧
      ElementNames.of c k = .ok key ∧ ElementNames.of c v = .ok value ∧
      names =
        { wrapper := .family "Map" (keyPart ++ valuePart)
            ("cpp_map[" ++ key.storage ++ ", " ++ value.storage ++ "]")
            ("test_map_" ++ k.ident ++ "_" ++ v.ident)
          key
          value } := by
  obtain ⟨keyPart, hkp, h⟩ := bind_eq_ok h
  obtain ⟨valuePart, hvp, h⟩ := bind_eq_ok h
  obtain ⟨key, hk, h⟩ := bind_eq_ok h
  obtain ⟨value, hv, h⟩ := bind_eq_ok h
  cases h
  exact ⟨keyPart, valuePart, key, value, hkp, hvp, hk, hv, rfl⟩

theorem ConverterNames.ofSet_eq_ok {names : ConverterNames}
    (h : ConverterNames.ofSet c t = .ok names) : ∃ parts human storage,
      c.functionPart t = .ok parts ∧ c.humanName t = .ok human ∧
      c.storageType (.set t) = .ok storage ∧
      names = ⟨human ++ " sets", "py_to_cpp_set_" ++ parts, "cpp_to_py_set_" ++ parts,
        storage⟩ := by
  obtain ⟨parts, hp, h⟩ := bind_eq_ok h
  obtain ⟨human, hh, h⟩ := bind_eq_ok h
  obtain ⟨storage, hs, h⟩ := bind_eq_ok h
  cases h
  exact ⟨parts, human, storage, hp, hh, hs, rfl⟩

theorem ConverterNames.ofMap_eq_ok {names : ConverterNames}
    (h : ConverterNames.ofMap c k v = .ok names) : ∃ keyPart valuePart key value storage,
      c.functionPart k = .ok keyPart ∧ c.functionPart v = .ok valuePart ∧
      c.humanName k = .ok key ∧ c.humanName v = .ok value ∧
      c.storageType (.map k v) = .ok storage ∧
      names = ⟨"<" ++ key ++ ", " ++ value ++ "> conversions",
        "dict_to_map_" ++ (keyPart ++ "_" ++ valuePart),
        "map_to_dict_" ++ (keyPart ++ "_" ++ valuePart), storage⟩ := by
  obtain ⟨keyPart, hkp, h⟩ := bind_eq_ok h
  obtain ⟨valuePart, hvp, h⟩ := bind_eq_ok h
  obtain ⟨key, hk, h⟩ := bind_eq_ok h
  obtain ⟨value, hv, h⟩ := bind_eq_ok h
  obtain ⟨storage, hs, h⟩ := bind_eq_ok h
  cases h
  exact ⟨keyPart, valuePart, key, value, storage, hkp, hvp, hk, hv, hs, rfl⟩

/-! ## Pieces -/

theorem Argument.of_eq_ok {name : String} {names : ElementNames} {a : Argument}
    (h : Argument.of c name t names = .ok a) : ∃ recipe,
      c.toStorage (.name name) t = .ok recipe ∧ a = ⟨name, t, names, recipe⟩ := by
  obtain ⟨recipe, hr, h⟩ := bind_eq_ok h
  cases h
  exact ⟨recipe, hr, rfl⟩

theorem typeCheck_eq_ok {subject accepted : Expr} (h : typeCheck c subject t = .ok accepted) :
    ∃ kinds, c.accepts t = .ok kinds ∧
      accepted = .isInstance subject (kinds.map HostKind.name) := by
  obtain ⟨kinds, hk, h⟩ := bind_eq_ok h
  cases h
  exact ⟨kinds, hk, rfl⟩

/-- Permissive insertion has no guard, and strict insertion one statement. -/
theorem insertionGuard_eq_ok {g : Generator} {subject : Expr} {role : String} {guards : List Stmt}
    (h : insertionGuard g subject t role = .ok guards) :
    g.insertion = .permissive ∧ guards = [] ∨
      g.insertion = .strict ∧ ∃ human accepted, g.catalog.humanName t = .ok human ∧
        typeCheck g.catalog subject t = .ok accepted ∧
        guards = [.when (.not accepted) [raiseType human role]] := by
  rw [insertionGuard] at h
  cases hi : g.insertion with
  | permissive =>
    rw [hi] at h
    cases h
    exact .inl ⟨rfl, rfl⟩
  | strict =>
    rw [hi] at h
    obtain ⟨human, hh, h⟩ := bind_eq_ok h
    obtain ⟨accepted, ha, h⟩ := bind_eq_ok h
    cases h
    exact .inr ⟨rfl, human, accepted, hh, ha, rfl⟩

end

/-- The class with the methods on a set. -/
def setClass (n : WrapperNames) (value : Argument) (accepted : Expr) (guards : List Stmt) :
    ClassDef :=
  let w := Vocabulary.set
  extensionClass n
    [setInitMethod n value, w.releaseMethod, w.containsMethod value accepted "s", w.lengthMethod,
     w.iterMethod n, addMethod value guards, w.removeMethod "discard" value "v"]

/-- The class with the methods on a map. -/
def mapClass (n : WrapperNames) (key value : Argument) (accepted : Expr) (guards : List Stmt)
    (valueStorage : String) (found : Recipe) : ClassDef :=
  let w := Vocabulary.map
  extensionClass n
    [mapInitMethod n key value, w.releaseMethod, w.containsMethod key accepted "k", w.lengthMethod,
     w.iterMethod n, getMethod key accepted valueStorage found, putMethod key value guards,
     w.removeMethod "__delitem__" key "k"]

end Bundle

namespace Generator

open WrapGen.Bundle

variable {g : Generator} {b : Bundle} {e k v : ElementType}

/-! ## Wrappers -/

theorem setImplementation_eq_ok {names : SetNames} {f : Fragment}
    (h : g.setImplementation names e = .ok f) : ∃ value accepted guards iterator,
      Argument.of g.catalog "value" e names.element = .ok value ∧
      typeCheck g.catalog value.expr e = .ok accepted ∧
      insertionGuard g value.expr e "values" = .ok guards ∧
      (Vocabulary.set.iteratorPlan names.wrapper e id).classDef g.catalog = .ok iterator ∧
      f = [.comment names.wrapper.publicClass, .classDef iterator,
        .classDef (setClass names.wrapper value accepted guards),
        .classDef (publicClass names.wrapper "collections.abc.Set"
          (setDoc names.element.human) setShown)] := by
  obtain ⟨value, hv, h⟩ := bind_eq_ok h
  obtain ⟨accepted, ha, h⟩ := bind_eq_ok h
  obtain ⟨guards, hg, h⟩ := bind_eq_ok h
  obtain ⟨iterator, hi, h⟩ := bind_eq_ok h
  cases h
  exact ⟨value, accepted, guards, iterator, hv, ha, hg, hi, rfl⟩

theorem setWrapper_eq_ok (h : g.setWrapper e = .ok b) : ∃ names f samples,
    SetNames.of g.catalog e = .ok names ∧ g.setImplementation names e = .ok f ∧
    g.samples.values e = .ok samples ∧
    b =
      { implementation := f
        interface := Vocabulary.set.interfaceFragment names.wrapper
          (Vocabulary.set.iteratorPlan names.wrapper e id)
        tests := testFragment names.wrapper (setScenario names.wrapper samples) } := by
  obtain ⟨e', he, hmade⟩ := bind_eq_ok h
  obtain ⟨rfl, -⟩ := ElementType.asKey_eq_ok he
  obtain ⟨names, hn, hmade⟩ := bind_eq_ok hmade
  obtain ⟨f, hf, hmade⟩ := bind_eq_ok hmade
  obtain ⟨samples, hs, hmade⟩ := bind_eq_ok hmade
  cases hmade
  exact ⟨names, f, samples, hn, hf, hs, rfl⟩

theorem mapImplementation_eq_ok {names : MapNames} {f : Fragment}
    (h : g.mapImplementation names k v = .ok f) :
    ∃ key value found accepted keyGuards valueGuards iterator,
      Argument.of g.catalog "key" k names.key = .ok key ∧
      Argument.of g.catalog "value" v names.value = .ok value ∧
      g.catalog.toHost (.name "v") v = .ok found ∧
      typeCheck g.catalog key.expr k = .ok accepted ∧
      insertionGuard g key.expr k "keys" = .ok keyGuards ∧
      insertionGuard g value.expr v "values" = .ok valueGuards ∧
      (Vocabulary.map.iteratorPlan names.wrapper k keyAt).classDef g.catalog = .ok iterator ∧
      f = [.comment names.wrapper.publicClass, .classDef iterator,
        .classDef (mapClass names.wrapper key value accepted (keyGuards ++ valueGuards)
          names.value.storage found),
        .classDef (publicClass names.wrapper "collections.abc.MutableMapping"
          (mapDoc names.key.human names.value.human) mapShown)] := by
  obtain ⟨key, hk, h⟩ := bind_eq_ok h
  obtain ⟨value, hv, h⟩ := bind_eq_ok h
  obtain ⟨found, hf, h⟩ := bind_eq_ok h
  obtain ⟨accepted, ha, h⟩ := bind_eq_ok h
  obtain ⟨keyGuards, hkg, h⟩ := bind_eq_ok h
  obtain ⟨valueGuards, hvg, h⟩ := bind_eq_ok h
  obtain ⟨iterator, hi, h⟩ := bind_eq_ok h
  cases h
  exact ⟨key, value, found, accepted, keyGuards, valueGuards, iterator, hk, hv, hf, ha, hkg, hvg,
    hi, rfl⟩

theorem mapWrapper_eq_ok (h : g.mapWrapper k v = .ok b) : ∃ names f keys values,
    MapNames.of g.catalog k v = .ok names ∧ g.mapImplementation names k v = .ok f ∧
    g.samples.values k = .ok keys ∧ g.samples.values v = .ok values ∧
    b =
      { implementation := f
        interface := Vocabulary.map.interfaceFragment names.wrapper
          (Vocabulary.map.iteratorPlan names.wrapper k keyAt)
        tests := testFragment names.wrapper
          (mapScenario names.wrapper g.samples v keys values) } := by
  obtain ⟨k', hk, hmade⟩ := bind_eq_ok h
  obtain ⟨rfl, -⟩ := ElementType.asKey_eq_ok hk
  obtain ⟨names, hn, hmade⟩ := bind_eq_ok hmade
  obtain ⟨f, hf, hmade⟩ := bind_eq_ok hmade
  obtain ⟨keys, hks, hmade⟩ := bind_eq_ok hmade
  obtain ⟨values, hvs, hmade⟩ := bind_eq_ok hmade
  cases hmade
  exact ⟨names, f, keys, values, hn, hf, hks, hvs, rfl⟩

/-! ## Converters -/

theorem converters_eq_ok {names : ConverterNames} {t : ElementType} {kind : HostKind}
    {hostParam storageParam : String}
    (h : g.converters names t kind hostParam storageParam = .ok b) : ∃ inward outward,
      g.catalog.toStorage (.name hostParam) t = .ok inward ∧
      g.catalog.toHost (.name storageParam) t = .ok outward ∧
      b = ofConverters names.comment
        (converter names.storage names.toStorage (.typed kind.name hostParam) inward)
        (converter kind.name names.toHost (.typed names.storage storageParam) outward) := by
  obtain ⟨inward, hi, h⟩ := bind_eq_ok h
  obtain ⟨outward, ho, h⟩ := bind_eq_ok h
  cases h
  exact ⟨inward, outward, hi, ho, rfl⟩

theorem setConverters_eq_ok (h : g.setConverters e = .ok b) : ∃ names,
    ConverterNames.ofSet g.catalog e = .ok names ∧
      g.converters names (.set e) .set "pyset" "cppset" = .ok b := by
  obtain ⟨e', he, hmade⟩ := bind_eq_ok h
  obtain ⟨rfl, -⟩ := ElementType.asKey_eq_ok he
  exact bind_eq_ok hmade

theorem mapConverters_eq_ok (h : g.mapConverters k v = .ok b) : ∃ names,
    ConverterNames.ofMap g.catalog k v = .ok names ∧
      g.converters names (.map k v) .dict "pydict" "cppmap" = .ok b := by
  obtain ⟨k', hk, hmade⟩ := bind_eq_ok h
  obtain ⟨rfl, -⟩ := ElementType.asKey_eq_ok hk
  exact bind_eq_ok hmade

end Generator

end WrapGen
