import Mathlib.Data.List.Nodup
import WrapGen.Batch.Request
import WrapGen.Proofs.Bundle.Parts
import WrapGen.Proofs.Bundle.Unknown
import WrapGen.Proofs.Naming.Labels

/-!
# Names of generated code are distinct

The names at the top level of the code of a request are the texts of its labels
(`bundle_names`), every label belongs to one request, and no two labels have one
text. So the code of distinct requests has distinct names, in each unit.

* `names_nodup`: this for the built-in catalog, whatever the samples and the
  insertion checks are, with the code of every request with ordered keys made.
-/
namespace WrapGen

namespace Code

/-- The name that an item defines or declares. -/
def Item.name? : Item → Option String
  | comment _ => none
  | classDef c => some c.name
  | function f => some f.name

/-- The names that a fragment defines or declares. -/
def Fragment.names (f : Fragment) : List String := f.filterMap Item.name?

end Code

open Code

/-! ## Labels of requests -/

/-- The labels of the code of a wrapper in a unit. -/
def WrappedType.wrapperLabels (t : WrappedType) : CodeUnit → List Label
  | .implementation => [.ofClass .iterator t, .ofClass .extension t, .ofClass .user t]
  | .interface => [.ofClass .iterator t, .ofClass .extension t]
  | .tests => [.ofFunction .test t]

/-- The labels of the code of a pair of converters in a unit. -/
def WrappedType.converterLabels (t : WrappedType) : CodeUnit → List Label
  | .implementation | .interface => [.ofFunction .toStorage t, .ofFunction .toHost t]
  | .tests => []

namespace Request

/-- The container type that a request is about. -/
def type : Request → WrappedType
  | set e | setConverters e => .set e
  | map k v | mapConverters k v => .map k v

/-- The labels of the code of a request in a unit. -/
def labels (r : Request) (u : CodeUnit) : List Label :=
  match r with
  | set _ | map _ _ => r.type.wrapperLabels u
  | setConverters _ | mapConverters _ _ => r.type.converterLabels u

/-- The request whose code a label is of. -/
def ofLabel : Label → Request
  | .ofClass _ (.set e) | .ofFunction .test (.set e) => .set e
  | .ofClass _ (.map k v) | .ofFunction .test (.map k v) => .map k v
  | .ofFunction _ (.set e) => .setConverters e
  | .ofFunction _ (.map k v) => .mapConverters k v

theorem ofLabel_of_mem {r : Request} {u : CodeUnit} {l : Label} (h : l ∈ r.labels u) :
    ofLabel l = r := by
  cases r <;> cases u <;>
    simp only [labels, type, WrappedType.wrapperLabels, WrappedType.converterLabels,
      List.mem_cons, List.not_mem_nil, or_false] at h
  all_goals rcases h with rfl | rfl | rfl <;> rfl

theorem labels_nodup (r : Request) (u : CodeUnit) : (r.labels u).Nodup := by
  cases r <;> cases u <;>
    simp [labels, type, WrappedType.wrapperLabels, WrappedType.converterLabels]

/-- Distinct requests have distinct labels. -/
theorem flatMap_labels_nodup {rs : List Request} (h : rs.Nodup) (u : CodeUnit) :
    (rs.flatMap fun r => r.labels u).Nodup := by
  refine List.nodup_flatMap.mpr ⟨fun r _ => r.labels_nodup u, h.imp ?_⟩
  intro r r' hne l hl hl'
  exact hne ((ofLabel_of_mem hl).symm.trans (ofLabel_of_mem hl'))

end Request

/-! ## Names of wrappers and converters -/

namespace Bundle

variable {c : Catalog}

/-- The names are the texts of the labels of a container type. -/
structure WrapperNames.Spell (c : Catalog) (t : WrappedType) (n : WrapperNames) : Prop where
  iterator : n.iteratorClass = Label.text c (.ofClass .iterator t)
  extension : n.extensionClass = Label.text c (.ofClass .extension t)
  user : n.publicClass = Label.text c (.ofClass .user t)
  test : n.test = Label.text c (.ofFunction .test t)

/-- The name of a function is its words up to the type, and the words of the type. -/
theorem function_text (c : Catalog) (r : FunctionRole) (t : WrappedType) :
    Label.text c (.ofFunction r t) =
      "_".intercalate (r.lead t) ++ "_" ++ "_".intercalate (t.inside.map (r.word c)) := by
  refine String.intercalate_append_of_ne_nil ?_ ?_
  · cases r <;> cases t <;> exact List.cons_ne_nil _ _
  · simpa using t.inside_ne_nil

theorem spell_family {t : WrappedType} {parts storage test : String}
    (hp : parts = c.spelled (t.inside.map .symbol))
    (ht : test = Label.text c (.ofFunction .test t)) :
    (WrapperNames.family t.container.classWord parts storage test).Spell c t where
  iterator := by
    rw [hp, Label.text, ClassRole.letters, Catalog.spelled_cons, Catalog.spelled_cons,
      Catalog.spelled_cons]
    simp only [WrapperNames.family, String.append_assoc]
    rfl
  extension := by
    rw [hp, Label.text, ClassRole.letters, Catalog.spelled_cons, Catalog.spelled_cons]
    simp only [WrapperNames.family, String.append_assoc]
    rfl
  user := by
    rw [hp, Label.text, ClassRole.letters, Catalog.spelled_cons]
    rfl
  test := ht

theorem setNames_spell {e : ElementType} {names : SetNames} (h : SetNames.of c e = .ok names) :
    names.wrapper.Spell c (.set e) := by
  obtain ⟨parts, element, hp, -, rfl⟩ := SetNames.of_eq_ok h
  refine spell_family (t := .set e) (Catalog.classPart_eq hp) ?_
  rw [function_text, e.ident_eq]
  rfl

theorem mapNames_spell {k v : ElementType} {names : MapNames}
    (h : MapNames.of c k v = .ok names) : names.wrapper.Spell c (.map k v) := by
  obtain ⟨keyPart, valuePart, key, value, hk, hv, -, -, rfl⟩ := MapNames.of_eq_ok h
  refine spell_family (t := .map k v) ?_ ?_
  · rw [Catalog.classPart_eq hk, Catalog.classPart_eq hv, WrappedType.inside, List.map_append,
      Catalog.spelled_append]
  · rw [function_text, k.ident_eq, v.ident_eq, WrappedType.inside,
      Catalog.intercalate_polish_append, ← String.append_assoc, ← String.append_assoc]
    rfl

theorem setConverters_spell {e : ElementType} {names : ConverterNames}
    (h : ConverterNames.ofSet c e = .ok names) :
    names.toStorage = Label.text c (.ofFunction .toStorage (.set e)) ∧
      names.toHost = Label.text c (.ofFunction .toHost (.set e)) := by
  obtain ⟨parts, human, storage, hp, -, -, rfl⟩ := ConverterNames.ofSet_eq_ok h
  rw [function_text, function_text, Catalog.functionPart_eq hp]
  exact ⟨rfl, rfl⟩

theorem mapConverters_spell {k v : ElementType} {names : ConverterNames}
    (h : ConverterNames.ofMap c k v = .ok names) :
    names.toStorage = Label.text c (.ofFunction .toStorage (.map k v)) ∧
      names.toHost = Label.text c (.ofFunction .toHost (.map k v)) := by
  obtain ⟨keyPart, valuePart, key, value, storage, hk, hv, -, -, -, rfl⟩ :=
    ConverterNames.ofMap_eq_ok h
  rw [function_text, function_text, WrappedType.inside, Catalog.intercalate_polish_append,
    Catalog.intercalate_polish_append, Catalog.functionPart_eq hk, Catalog.functionPart_eq hv]
  exact ⟨rfl, rfl⟩

theorem classDef_name {p : IteratorPlan} {d : ClassDef} (h : p.classDef c = .ok d) :
    d.name = p.name := by
  obtain ⟨value, -, h⟩ := bind_eq_ok h
  cases h
  rfl

end Bundle

/-! ## Names of bundles -/

namespace Generator

open WrapGen.Bundle

variable {g : Generator} {b : Bundle}

/-- The names of a wrapper, given those in its implementation. -/
theorem wrapperLabels_map {c : Catalog} {t : WrappedType} {n : WrapperNames} (hn : n.Spell c t)
    {w : Vocabulary} {item : ElementType} {project : Expr → Expr} {implementation : Fragment}
    {body : List Stmt}
    (hi : implementation.names = [n.iteratorClass, n.extensionClass, n.publicClass])
    (u : CodeUnit) :
    ((⟨implementation, w.interfaceFragment n (w.iteratorPlan n item project),
      testFragment n body⟩ : Bundle).get u).names = (t.wrapperLabels u).map (Label.text c) := by
  cases u with
  | implementation =>
    show implementation.names = _
    rw [hi, hn.iterator, hn.extension, hn.user]
    rfl
  | interface =>
    show [n.iteratorClass, n.extensionClass] = _
    rw [hn.iterator, hn.extension]
    rfl
  | tests =>
    show [n.test] = _
    rw [hn.test]
    rfl

theorem setWrapper_names {e : ElementType} (h : g.setWrapper e = .ok b) (u : CodeUnit) :
    (b.get u).names = ((WrappedType.set e).wrapperLabels u).map (Label.text g.catalog) := by
  obtain ⟨names, f, samples, hn, hf, -, rfl⟩ := setWrapper_eq_ok h
  obtain ⟨value, accepted, guards, iterator, -, -, -, hd, rfl⟩ := setImplementation_eq_ok hf
  refine wrapperLabels_map (setNames_spell hn) ?_ u
  show [iterator.name, names.wrapper.extensionClass, names.wrapper.publicClass] = _
  rw [classDef_name hd]
  rfl

theorem mapWrapper_names {k v : ElementType} (h : g.mapWrapper k v = .ok b) (u : CodeUnit) :
    (b.get u).names = ((WrappedType.map k v).wrapperLabels u).map (Label.text g.catalog) := by
  obtain ⟨names, f, keys, values, hn, hf, -, -, rfl⟩ := mapWrapper_eq_ok h
  obtain ⟨key, value, found, accepted, keyGuards, valueGuards, iterator, -, -, -, -, -, -, hd,
    rfl⟩ := mapImplementation_eq_ok hf
  refine wrapperLabels_map (mapNames_spell hn) ?_ u
  show [iterator.name, names.wrapper.extensionClass, names.wrapper.publicClass] = _
  rw [classDef_name hd]
  rfl

/-- The names of a pair of converters. -/
theorem converterLabels_map {t : WrappedType} {names : ConverterNames}
    (hs : names.toStorage = Label.text g.catalog (.ofFunction .toStorage t))
    (hh : names.toHost = Label.text g.catalog (.ofFunction .toHost t)) {type : ElementType}
    {kind : HostKind} {hostParam storageParam : String}
    (h : g.converters names type kind hostParam storageParam = .ok b) (u : CodeUnit) :
    (b.get u).names = (t.converterLabels u).map (Label.text g.catalog) := by
  obtain ⟨inward, outward, -, -, rfl⟩ := converters_eq_ok h
  cases u with
  | implementation | interface =>
    show [names.toStorage, names.toHost] = _
    rw [hs, hh]
    rfl
  | tests => rfl

theorem setConverters_names {e : ElementType} (h : g.setConverters e = .ok b) (u : CodeUnit) :
    (b.get u).names = ((WrappedType.set e).converterLabels u).map (Label.text g.catalog) := by
  obtain ⟨names, hn, hmade⟩ := setConverters_eq_ok h
  obtain ⟨hs, hh⟩ := setConverters_spell hn
  exact converterLabels_map hs hh hmade u

theorem mapConverters_names {k v : ElementType} (h : g.mapConverters k v = .ok b) (u : CodeUnit) :
    (b.get u).names = ((WrappedType.map k v).converterLabels u).map (Label.text g.catalog) := by
  obtain ⟨names, hn, hmade⟩ := mapConverters_eq_ok h
  obtain ⟨hs, hh⟩ := mapConverters_spell hn
  exact converterLabels_map hs hh hmade u

end Generator

namespace Request

variable {g : Generator}

/-- The names in the code of a request are the texts of its labels. -/
theorem bundle_names {r : Request} {b : Bundle} (h : r.bundle g = .ok b) (u : CodeUnit) :
    (b.get u).names = (r.labels u).map (Label.text g.catalog) := by
  have hmade := mapError_eq_ok_iff.mp h
  cases r with
  | set e => exact Generator.setWrapper_names hmade u
  | map k v => exact Generator.mapWrapper_names hmade u
  | setConverters e => exact Generator.setConverters_names hmade u
  | mapConverters k v => exact Generator.mapConverters_names hmade u

theorem flatMap_names {rs : List Request} {bundles : List Bundle}
    (h : List.Forall₂ (fun r b => bundle g r = .ok b) rs bundles) (u : CodeUnit) :
    bundles.flatMap (fun b => (b.get u).names) =
      (rs.flatMap fun r => r.labels u).map (Label.text g.catalog) := by
  induction h with
  | nil => rfl
  | cons hb _ ih => rw [List.flatMap_cons, List.flatMap_cons, List.map_append, bundle_names hb, ih]

/-- In a legible catalog distinct requests have distinct names. -/
theorem flatMap_names_nodup (hc : g.catalog.Legible) {rs : List Request} (hd : rs.Nodup)
    {bundles : List Bundle} (h : rs.mapM (bundle g) = .ok bundles) (u : CodeUnit) :
    (bundles.flatMap fun b => (b.get u).names).Nodup := by
  rw [flatMap_names (forall₂_of_mapM h)]
  exact (flatMap_labels_nodup hd u).map fun _ _ ht => hc.text_injective ht

end Request

/-! ## The code is made -/

namespace Request

variable {samples : Samples} {insertion : Insertion}

/-- The built-in catalog makes the code of every request with ordered keys. -/
theorem exists_bundle (hs : ∀ t, ∃ values, samples.values t = .ok values) {r : Request}
    (hk : r.type.keyType.isKey = true) :
    ∃ b, r.bundle ⟨.builtin, samples, insertion⟩ = .ok b := by
  let g : Generator := ⟨.builtin, samples, insertion⟩
  simp only [bundle, mapError_eq_ok_iff]
  cases r with
  | set e => exact (g.demands_setWrapper hk (hs e)).exists_ok
  | map k v => exact (g.demands_mapWrapper hk (hs k) (hs v)).exists_ok
  | setConverters e => exact (g.demands_setConverters hk).exists_ok
  | mapConverters k v => exact (g.demands_mapConverters hk).exists_ok

/-- Over the built-in catalog distinct requests have distinct names in every unit,
and the code of requests with ordered keys is made if there are samples. -/
theorem names_nodup (samples : Samples) (insertion : Insertion) (rs : List Request)
    (hd : rs.Nodup) :
    (∀ bundles, rs.mapM (bundle ⟨.builtin, samples, insertion⟩) = .ok bundles →
      ∀ u, (Fragment.names (bundles.flatMap fun b => b.get u)).Nodup) ∧
    ((∀ t, ∃ values, samples.values t = .ok values) →
      (∀ r ∈ rs, r.type.keyType.isKey = true) →
      ∃ bundles, rs.mapM (bundle ⟨.builtin, samples, insertion⟩) = .ok bundles) := by
  constructor
  · intro bundles h u
    have hn := flatMap_names_nodup Catalog.builtin_legible hd h u
    unfold Fragment.names
    rw [List.filterMap_flatMap]
    exact hn
  · intro hs hk
    exact exists_mapM_eq_ok fun r hr => exists_bundle hs (hk r hr)

/-- All four shapes, with types whose names are close to each other. -/
theorem names_nodup_shapes :
    let int : ElementType := .primitive .int32
    let rs : List Request :=
      [.set int, .map int (.set int), .setConverters int, .mapConverters int (.map int int)]
    ∃ bundles, rs.mapM (bundle ⟨.builtin, .builtin, .permissive⟩) = .ok bundles ∧
      ∀ u, (Fragment.names (bundles.flatMap fun b => b.get u)).Nodup := by
  intro int rs
  obtain ⟨hnames, hmade⟩ := names_nodup .builtin .permissive rs (by decide)
  obtain ⟨bundles, hb⟩ := hmade (fun t => ⟨_, rfl⟩) (by decide)
  exact ⟨bundles, hb, hnames bundles hb⟩

end Request

end WrapGen
