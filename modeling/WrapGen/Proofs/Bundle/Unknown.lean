import WrapGen.Bundle.Converters
import WrapGen.Bundle.MapWrapper
import WrapGen.Bundle.SetWrapper
import WrapGen.Proofs.Catalog.Entries

/-!
# Types with unknown primitives

A bundle starts with the names of its types, which demand entries for all of their
primitives. So a bundle is made of types that the catalog knows completely or not at
all, and the error is the one that the names have. All that comes after the names is
made whenever the primitives have entries.

* `unknown_leaf_fails`: names, conversions and bundles fail at the first primitive
  without an entry, and only there.
-/
namespace WrapGen

open Catalog

namespace Bundle

open Code

variable {c : Catalog}

/-! ## Names -/

theorem demands_elementNames (t : ElementType) : c.Demands t.leaves (ElementNames.of c t) :=
  (demands_spell .storage t).again fun _ => (demands_spell .human t).map _

theorem demands_setNames (e : ElementType) : c.Demands e.leaves (SetNames.of c e) :=
  (demands_spell .classPart e).again fun _ => (demands_elementNames e).map _

theorem demands_mapNames (k v : ElementType) :
    c.Demands (k.leaves ++ v.leaves) (MapNames.of c k v) := by
  refine (demands_spell .classPart k).bind fun hk _ => ?_
  refine (demands_spell .classPart v).thenOk fun hv _ => ?_
  refine exists_bind_eq_ok ((demands_elementNames k).ok_iff.mpr hk) fun key => ?_
  exact ((demands_elementNames v).map _).ok_iff.mpr hv

theorem demands_setConverterNames (e : ElementType) :
    c.Demands e.leaves (ConverterNames.ofSet c e) :=
  (demands_spell .functionPart e).again fun _ => (demands_spell .human e).again fun _ =>
    (demands_spell .storage (.set e)).map _

theorem demands_mapConverterNames (k v : ElementType) :
    c.Demands (k.leaves ++ v.leaves) (ConverterNames.ofMap c k v) := by
  refine (demands_spell .functionPart k).bind fun hk _ => ?_
  refine (demands_spell .functionPart v).thenOk fun hv _ => ?_
  refine exists_bind_eq_ok ((demands_spell .human k).ok_iff.mpr hk) fun key => ?_
  refine exists_bind_eq_ok ((demands_spell .human v).ok_iff.mpr hv) fun value => ?_
  exact ((demands_spell .storage (.map k v)).map _).ok_iff.mpr (List.forall_mem_append.mpr ⟨hk, hv⟩)

/-! ## Pieces -/

theorem demands_argument (name : String) (t : ElementType) (names : ElementNames) :
    c.Demands t.leaves (Argument.of c name t names) :=
  (demands_toStorage t (.name name)).map _

theorem demands_classDef (p : IteratorPlan) : c.Demands p.item.leaves (p.classDef c) :=
  (demands_toHost p.item _).map _

theorem exists_typeCheck {t : ElementType} (h : ∀ p ∈ t.leaves, c.hasEntry p = true)
    (subject : Expr) : ∃ accepted, typeCheck c subject t = .ok accepted :=
  exists_bind_eq_ok (exists_accepts h) fun _ => ⟨_, rfl⟩

theorem exists_insertionGuard {g : Generator} {t : ElementType}
    (h : ∀ p ∈ t.leaves, g.catalog.hasEntry p = true) (subject : Expr) (role : String) :
    ∃ guards, insertionGuard g subject t role = .ok guards := by
  rw [insertionGuard]
  cases g.insertion with
  | permissive => exact ⟨[], rfl⟩
  | strict =>
    refine exists_bind_eq_ok ((demands_spell .human t).ok_iff.mpr h) fun human => ?_
    exact exists_bind_eq_ok (exists_typeCheck h subject) fun accepted => ⟨_, rfl⟩

end Bundle

namespace Generator

open WrapGen.Bundle

variable (g : Generator)

theorem demands_setImplementation (names : SetNames) (e : ElementType) :
    g.catalog.Demands e.leaves (g.setImplementation names e) := by
  refine (demands_argument "value" e names.element).thenOk fun he value => ?_
  refine exists_bind_eq_ok (exists_typeCheck he value.expr) fun accepted => ?_
  refine exists_bind_eq_ok (exists_insertionGuard he value.expr "values") fun guards => ?_
  exact ((demands_classDef (Vocabulary.set.iteratorPlan names.wrapper e id)).map _).ok_iff.mpr he

theorem demands_mapImplementation (names : MapNames) (k v : ElementType) :
    g.catalog.Demands (k.leaves ++ v.leaves) (g.mapImplementation names k v) := by
  refine (demands_argument "key" k names.key).bind fun hk key => ?_
  refine (demands_argument "value" v names.value).thenOk fun hv value => ?_
  refine exists_bind_eq_ok ((demands_toHost v (.name "v")).ok_iff.mpr hv) fun found => ?_
  refine exists_bind_eq_ok (exists_typeCheck hk key.expr) fun accepted => ?_
  refine exists_bind_eq_ok (exists_insertionGuard hk key.expr "keys") fun keyGuards => ?_
  refine exists_bind_eq_ok (exists_insertionGuard hv value.expr "values") fun valueGuards => ?_
  exact ((demands_classDef (Vocabulary.map.iteratorPlan names.wrapper k keyAt)).map _).ok_iff.mpr hk

theorem demands_converters (names : ConverterNames) (t : ElementType) (kind : HostKind)
    (hostParam storageParam : String) :
    g.catalog.Demands t.leaves (g.converters names t kind hostParam storageParam) :=
  (demands_toStorage t _).again fun _ => (demands_toHost t _).map _

/-! ## Bundles -/

section
variable {e k v : ElementType}

theorem demands_setWrapper (hkey : e.isKey = true)
    (hsamples : ∃ values, g.samples.values e = .ok values) :
    g.catalog.Demands e.leaves (g.setWrapper e) := by
  rw [setWrapper, ElementType.asKey_of_isKey hkey]
  refine (demands_setNames e).again fun names => ?_
  refine (g.demands_setImplementation names e).thenOk fun _ implementation => ?_
  exact exists_bind_eq_ok hsamples fun _ => ⟨_, rfl⟩

theorem demands_mapWrapper (hkey : k.isKey = true)
    (hkeys : ∃ values, g.samples.values k = .ok values)
    (hvalues : ∃ values, g.samples.values v = .ok values) :
    g.catalog.Demands (k.leaves ++ v.leaves) (g.mapWrapper k v) := by
  rw [mapWrapper, ElementType.asKey_of_isKey hkey]
  refine (demands_mapNames k v).again fun names => ?_
  refine (g.demands_mapImplementation names k v).thenOk fun _ implementation => ?_
  exact exists_bind_eq_ok hkeys fun _ => exists_bind_eq_ok hvalues fun _ => ⟨_, rfl⟩

theorem demands_setConverters (hkey : e.isKey = true) :
    g.catalog.Demands e.leaves (g.setConverters e) := by
  rw [setConverters, ElementType.asKey_of_isKey hkey]
  exact (demands_setConverterNames e).again fun names => g.demands_converters names (.set e) _ _ _

theorem demands_mapConverters (hkey : k.isKey = true) :
    g.catalog.Demands (k.leaves ++ v.leaves) (g.mapConverters k v) := by
  rw [mapConverters, ElementType.asKey_of_isKey hkey]
  refine (demands_mapConverterNames k v).again fun names => ?_
  exact g.demands_converters names (.map k v) _ _ _

end

/-- Everything that is made from types has a result if all their primitives have an
entry, and otherwise fails with the one error that names the first that has none: the
names, the storage type and both conversions of every type, and the bundles of all
shapes whose keys are ordered and whose samples are there. -/
theorem unknown_leaf_fails (g : Generator) :
    (∀ (t : ElementType) (source : Code.Expr),
      g.catalog.Demands t.leaves (g.catalog.humanName t) ∧
      g.catalog.Demands t.leaves (g.catalog.classPart t) ∧
      g.catalog.Demands t.leaves (g.catalog.functionPart t) ∧
      g.catalog.Demands t.leaves (g.catalog.storageType t) ∧
      g.catalog.Demands t.leaves (g.catalog.toStorage source t) ∧
      g.catalog.Demands t.leaves (g.catalog.toHost source t)) ∧
    (∀ e : ElementType, e.isKey = true → (∃ values, g.samples.values e = .ok values) →
      g.catalog.Demands e.leaves (g.setWrapper e)) ∧
    (∀ k v : ElementType, k.isKey = true → (∃ values, g.samples.values k = .ok values) →
      (∃ values, g.samples.values v = .ok values) →
      g.catalog.Demands (k.leaves ++ v.leaves) (g.mapWrapper k v)) ∧
    (∀ e : ElementType, e.isKey = true → g.catalog.Demands e.leaves (g.setConverters e)) ∧
    (∀ k v : ElementType, k.isKey = true →
      g.catalog.Demands (k.leaves ++ v.leaves) (g.mapConverters k v)) := by
  refine ⟨fun t source => ?_, fun e => g.demands_setWrapper, fun k v => g.demands_mapWrapper,
    fun e => g.demands_setConverters, fun k v => g.demands_mapConverters⟩
  exact ⟨demands_spell .human t, demands_spell .classPart t, demands_spell .functionPart t,
    demands_spell .storage t, demands_toStorage t source, demands_toHost t source⟩

/-- A catalog that knows one primitive makes sets of it, and refuses maps to texts. -/
theorem unknown_leaf_fails_partial :
    let c := Catalog.containers.register .int32 [] (integerEntry "int" "Int" "int" "int")
    let g : Generator := ⟨c, .builtin, .strict⟩
    let int : ElementType := .primitive .int32
    let texts : ElementType := .map int (.vector (.primitive .str))
    (∃ b, g.setWrapper int = .ok b) ∧ g.mapWrapper int texts = .error (.unknownType "str") := by
  intro c g int texts
  obtain ⟨-, hset, hmap, -, -⟩ := unknown_leaf_fails g
  exact ⟨(hset int rfl ⟨_, rfl⟩).ok_iff.mpr (by decide),
    (hmap int texts rfl ⟨_, rfl⟩ ⟨_, rfl⟩).error .str rfl⟩

end Generator

end WrapGen
