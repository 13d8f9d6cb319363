import WrapGen.Bundle.Names
import WrapGen.Catalog.Builtin
import WrapGen.Proofs.Code.Solid
import WrapGen.Proofs.Conversion.Induction
import WrapGen.Proofs.Naming.Stem

/-!
# Conversions are solid

A catalog is solid if the names of its primitives are plain and their recipes solid.
Then so is every name and every storage type that is spelled from them, and every
conversion: its temporaries are named from a stem, which is letters, digits and
underscores.

* `Catalog.solid_toStorage`, `Catalog.solid_toHost`: the conversions of every type.
* `Catalog.isPlain_spell`: the spellings of every type.
* `Catalog.solid_builtin`: the built-in catalog is solid.
-/
namespace WrapGen

open Code Text

/-! ## Stems -/

/-- A letter or digit may stand anywhere in a name. -/
theorem Text.of_not_separates {c : Char} (h : separates c = false) :
    isInline c = true ∧ c ≠ '"' ∧ isBlank c = false ∧ c ≠ '#' := by
  have hrange : (65 ≤ c.toNat ∧ c.toNat ≤ 90) ∨ (97 ≤ c.toNat ∧ c.toNat ≤ 122) ∨
      (48 ≤ c.toNat ∧ c.toNat ≤ 57) := by
    have h : c.isAlphanum = true := by simpa [separates] using h
    rcases Bool.or_eq_true_iff.mp h with h | h
    · rcases Bool.or_eq_true_iff.mp h with h | h
      · obtain ⟨hl, hu⟩ := of_decide_eq_true h
        exact .inl ⟨UInt32.le_iff_toNat_le.mp hl, UInt32.le_iff_toNat_le.mp hu⟩
      · obtain ⟨hl, hu⟩ := Bool.and_eq_true_iff.mp h
        exact .inr (.inl ⟨UInt32.le_iff_toNat_le.mp (of_decide_eq_true hl),
          UInt32.le_iff_toNat_le.mp (of_decide_eq_true hu)⟩)
    · obtain ⟨hl, hu⟩ := Bool.and_eq_true_iff.mp h
      exact .inr (.inr ⟨UInt32.le_iff_toNat_le.mp (of_decide_eq_true hl),
        UInt32.le_iff_toNat_le.mp (of_decide_eq_true hu)⟩)
  have hne : ∀ d : Char, d.toNat < 48 ∨ d.toNat = 58 → c ≠ d := by
    rintro _ hd rfl
    omega
  refine ⟨?_, hne _ (by decide), ?_, hne _ (by decide)⟩
  · simp [isInline, isControl, hne ':' (by decide)]
    omega
  · simp [isBlank, blankRanges]
    omega

/-- A stem may stand in front of names. -/
theorem Text.IsStem.nameable {s : String} (h : IsStem s) : Nameable s := by
  obtain ⟨ws, hne, hw, hs⟩ := h
  obtain ⟨w, ws, rfl⟩ := List.exists_cons_of_ne_nil hne
  obtain ⟨hword, hws⟩ := List.forall_mem_cons.mp hw
  rw [intercalate_eq_flatMap] at hs
  constructor
  · have hplain : ∀ v, IsWord v → ∀ c ∈ v, (isInline c && c != '"') = true := by
      intro v hv c hc
      obtain ⟨hi, hq, -⟩ := of_not_separates (hv.2 c hc)
      simp [hi, hq]
    rw [isPlain, hs, List.all_append, List.all_flatMap, Bool.and_eq_true]
    refine ⟨List.all_eq_true.mpr (hplain w hword), List.all_eq_true.mpr fun v hv => ?_⟩
    rw [List.all_cons, List.all_eq_true.mpr (hplain v (hws v hv))]
    rfl
  · obtain ⟨c, cs, rfl⟩ := List.exists_cons_of_ne_nil hword.1
    obtain ⟨-, hq, hb, hn⟩ := of_not_separates (hword.2 c List.mem_cons_self)
    exact isLeading_iff.mpr ⟨c, _, hs, hb, hq, hn⟩

/-! ## Catalogs -/

/-- The names of a primitive are plain and its recipes solid. -/
structure Entry.Solid (e : Entry) : Prop where
  humanName : isPlain e.humanName = true
  classPart : isPlain e.classPart = true
  functionPart : isPlain e.functionPart = true
  storageType : isPlain e.storageType = true
  toStorage : e.toStorage.solid = true
  toHost : e.toHost.solid = true

namespace Catalog

/-- Everything that a catalog knows about a primitive is solid. -/
def Solid (c : Catalog) : Prop := ∀ p e, c.entry p = .ok e → e.Solid

theorem solid_builtin : builtin.Solid := by
  intro p e h
  cases p <;> cases h <;> constructor <;> decide

end Catalog

/-! ## Spellings -/

/-- A spelling puts plain texts together to plain ones. -/
structure Spelling.Plain (s : Spelling) : Prop where
  primitive : ∀ e : Entry, e.Solid → isPlain (s.primitive e) = true
  vector : ∀ e, isPlain e = true → isPlain (s.vector e) = true
  set : ∀ e, isPlain e = true → isPlain (s.set e) = true
  map : ∀ k v, isPlain k = true → isPlain v = true → isPlain (s.map k v) = true

namespace Spelling

theorem plain_human : human.Plain := by
  refine ⟨fun _ he => he.humanName, ?_, ?_, ?_⟩ <;> simp +decide +contextual [human]

theorem plain_classPart : classPart.Plain := by
  refine ⟨fun _ he => he.classPart, ?_, ?_, ?_⟩ <;> simp +decide +contextual [classPart]

theorem plain_functionPart : functionPart.Plain := by
  refine ⟨fun _ he => he.functionPart, ?_, ?_, ?_⟩ <;> simp +decide +contextual [functionPart]

theorem plain_storage : storage.Plain := by
  refine ⟨fun _ he => he.storageType, ?_, ?_, ?_⟩ <;> simp +decide +contextual [storage]

end Spelling

theorem ElementType.isPlain_ident : ∀ t : ElementType, isPlain t.ident = true
  | .primitive p => by cases p <;> decide
  | .vector e | .set e => by simp +decide [ident, e.isPlain_ident]
  | .map k v => by simp +decide [ident, k.isPlain_ident, v.isPlain_ident]

theorem HostKind.isPlain_name (k : HostKind) : isPlain k.name = true := by
  cases k <;> decide

namespace Catalog

variable {c : Catalog} {s : Spelling}

/-- Every type is spelled plainly. -/
theorem isPlain_spell (hc : c.Solid) (hs : s.Plain) : ∀ {t : ElementType} {x : String},
    c.spell s t = .ok x → isPlain x = true
  | .primitive p, x, h => by
    obtain ⟨e, he, h⟩ := bind_eq_ok h
    cases h
    exact hs.primitive e (hc p e he)
  | .vector t, x, h => by
    obtain ⟨e, he, h⟩ := bind_eq_ok h
    cases h
    exact hs.vector e (isPlain_spell hc hs he)
  | .set t, x, h => by
    obtain ⟨e, he, h⟩ := bind_eq_ok h
    cases h
    exact hs.set e (isPlain_spell hc hs he)
  | .map k v, x, h => by
    obtain ⟨k', hk, h⟩ := bind_eq_ok h
    obtain ⟨v', hv, h⟩ := bind_eq_ok h
    cases h
    exact hs.map k' v' (isPlain_spell hc hs hk) (isPlain_spell hc hs hv)

/-! ## Conversions -/

/-- The conversion to storage of every type is solid. -/
theorem solid_toStorage (hc : c.Solid) {t : ElementType} {source : Expr} {r : Recipe}
    (hs : source.solid = true) (hl : source.leads = true) (h : c.toStorage source t = .ok r) :
    r.solid = true := by
  refine toStorage_induction
    (P := fun source r => source.solid = true → source.leads = true → r.solid = true)
    ?_ ?_ ?_ h hs hl
  · intro source p r h hs hl
    obtain ⟨entry, he, h⟩ := bind_eq_ok h
    cases h
    exact Recipe.solid_bind (isStem_stem_expr source).nameable hs (hc p entry he).toStorage hl
  · intro source t storage item hst _ ih insertion hinsertion hs hl
    have hstem := (isStem_stem_expr source).nameable
    refine Recipe.solid_storeItems hstem hs (isPlain_spell hc Spelling.plain_storage hst) ?_
      (ih (hstem.solid_name (by decide)) (hstem.leads_name _))
    exact List.all_eq_true.mp (by decide) insertion hinsertion
  · intro source t storage key value hst _ ihk ihv hs hl
    have hstem := (isStem_stem_expr source).nameable
    exact Recipe.solid_storeEntries hstem hs (isPlain_spell hc Spelling.plain_storage hst)
      (ihk (hstem.solid_name (by decide)) (hstem.leads_name _))
      (ihv (hstem.solid_name (by decide)) (hstem.leads_name _))

/-- The conversion to host values of every type is solid. -/
theorem solid_toHost (hc : c.Solid) {t : ElementType} {source : Expr} {r : Recipe}
    (hs : source.solid = true) (hl : source.leads = true) (h : c.toHost source t = .ok r) :
    r.solid = true := by
  have hitem (source : Expr) : (itemAt source).solid = true :=
    (isStem_stem_expr source).nameable.solid_name (by decide)
  refine toHost_induction
    (P := fun source r => source.solid = true → source.leads = true → r.solid = true)
    ?_ ?_ ?_ h hs hl
  · intro source p r h hs hl
    obtain ⟨entry, he, h⟩ := bind_eq_ok h
    cases h
    exact Recipe.solid_bind (isStem_stem_expr source).nameable hs (hc p entry he).toHost hl
  · intro source t storage item hst ih filler hfiller hs hl
    have hplain : ∀ f ∈ fillers, isPlain f.1 = true ∧ f.2.solid = true := by decide
    exact Recipe.solid_loadItems (isStem_stem_expr source).nameable hs
      (isPlain_spell hc Spelling.plain_storage hst) (hplain filler hfiller).1
      (hplain filler hfiller).2 (ih (hitem source) rfl)
  · intro source t storage key value hst ihk ihv hs hl
    have hattr (field : String) (hf : isPlain field = true) :
        (Expr.attr (itemAt source) field).solid = true :=
      Bool.and_eq_true_iff.mpr ⟨hitem source, hf⟩
    exact Recipe.solid_loadEntries (isStem_stem_expr source).nameable hs
      (isPlain_spell hc Spelling.plain_storage hst) (ihk (hattr "first" (by decide)) rfl)
      (ihv (hattr "second" (by decide)) rfl)

end Catalog

end WrapGen
