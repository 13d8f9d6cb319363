import WrapGen.Catalog.Builtin
import WrapGen.Conversion
import WrapGen.Proofs.Results

/-!
# Entries that are looked up

A catalog need not have an entry for every primitive of a type. What is made from a type
looks up the entries of its leaves from left to right, and fails at the first that is
missing: `Demands` says so of a computation and a list of primitives. Two computations
one after the other demand what both demand (`Demands.bind`). One that goes on with
primitives that have been looked up before finds all of them (`Demands.thenOk`).

* `demands_spell`, `demands_toStorage`, `demands_toHost`: names, storage types and
  conversions of a type demand its leaves.
-/
namespace WrapGen

open Code

/-- The primitives at the leaves, from left to right; of a map those of the key first. -/
def ElementType.leaves : ElementType → List Primitive
  | .primitive p => [p]
  | .vector e => e.leaves
  | .set e => e.leaves
  | .map k v => k.leaves ++ v.leaves

namespace Catalog

/-- Whether a primitive has an entry. -/
def hasEntry (c : Catalog) (p : Primitive) : Bool := (c.entries.lookup p).isSome

/-- A computation has a result if all of some primitives have an entry; otherwise the
error names the first of them that has none. -/
structure Demands {α : Type} (c : Catalog) (ps : List Primitive) (x : Except DescriptorError α) :
    Prop where
  ok_iff : (∃ a, x = .ok a) ↔ ∀ p ∈ ps, c.hasEntry p = true
  error : ∀ p, ps.find? (fun p => !c.hasEntry p) = some p → x = .error (.unknownType p.token)

section
variable {c : Catalog} {α β : Type} {ps qs : List Primitive} {x : Except DescriptorError α}
  {f : α → Except DescriptorError β}

theorem find?_eq_none_iff :
    ps.find? (fun p => !c.hasEntry p) = none ↔ ∀ p ∈ ps, c.hasEntry p = true := by
  simp only [List.find?_eq_none, Bool.not_eq_true', Bool.not_eq_false]

theorem demands_entry (p : Primitive) : c.Demands [p] (c.entry p) := by
  unfold entry
  constructor
  case ok_iff =>
    rw [List.forall_mem_singleton, hasEntry]
    cases c.entries.lookup p <;> simp
  case error =>
    intro q hq
    cases List.mem_singleton.mp (List.mem_of_find?_eq_some hq)
    have hmissing := List.find?_some hq
    rw [hasEntry] at hmissing
    cases hentry : c.entries.lookup p with
    | none => rfl
    | some e =>
      rw [hentry] at hmissing
      cases hmissing

/-- Two computations, one after the other, demand what both demand. The second is only
made if the first has a result, so that all that the first demands has an entry. -/
theorem Demands.bind (hx : c.Demands ps x)
    (hf : (∀ p ∈ ps, c.hasEntry p = true) → ∀ a, c.Demands qs (f a)) :
    c.Demands (ps ++ qs) (x >>= f) := by
  constructor
  case ok_iff =>
    rw [List.forall_mem_append]
    constructor
    · rintro ⟨b, h⟩
      obtain ⟨a, ha, hb⟩ := bind_eq_ok h
      have hps := hx.ok_iff.mp ⟨a, ha⟩
      exact ⟨hps, (hf hps a).ok_iff.mp ⟨b, hb⟩⟩
    · rintro ⟨hps, hqs⟩
      exact exists_bind_eq_ok (hx.ok_iff.mpr hps) fun a => (hf hps a).ok_iff.mpr hqs
  case error =>
    intro p hp
    rw [List.find?_append] at hp
    cases hfirst : ps.find? fun p => !c.hasEntry p with
    | some q =>
      rw [hfirst] at hp
      cases hp
      rw [hx.error p hfirst]
      rfl
    | none =>
      rw [hfirst] at hp
      have hps := find?_eq_none_iff.mp hfirst
      obtain ⟨a, rfl⟩ := hx.ok_iff.mpr hps
      exact (hf hps a).error p hp

theorem demands_ok (a : α) : c.Demands [] (.ok a) :=
  ⟨⟨fun _ => List.forall_mem_nil _, fun _ => ⟨a, rfl⟩⟩, nofun⟩

/-- What follows finds all that it looks up. -/
theorem Demands.thenOk (hx : c.Demands ps x)
    (hf : (∀ p ∈ ps, c.hasEntry p = true) → ∀ a, ∃ b, f a = .ok b) : c.Demands ps (x >>= f) := by
  rw [← List.append_nil ps]
  refine hx.bind fun hps a => ?_
  obtain ⟨b, hb⟩ := hf hps a
  rw [hb]
  exact demands_ok b

/-- What has been looked up may be looked up again. -/
theorem Demands.again (hx : c.Demands ps x) (hf : ∀ a, c.Demands ps (f a)) :
    c.Demands ps (x >>= f) :=
  hx.thenOk fun hps a => (hf a).ok_iff.mpr hps

/-- The result may be put into another form. -/
theorem Demands.map (hx : c.Demands ps x) (g : α → β) : c.Demands ps (x >>= fun a => .ok (g a)) :=
  hx.thenOk fun _ a => ⟨g a, rfl⟩

end

/-! ## What is made from a type -/

section
variable {c : Catalog}

theorem demands_spell (s : Spelling) : ∀ t : ElementType, c.Demands t.leaves (c.spell s t)
  | .primitive p => (demands_entry p).map _
  | .vector e => (demands_spell s e).map _
  | .set e => (demands_spell s e).map _
  | .map k v => (demands_spell s k).bind fun _ _ => (demands_spell s v).map _

/-- The code of a composite is made after its storage type, which demands all leaves. -/
theorem demands_toStorage : ∀ (t : ElementType) (source : Expr),
    c.Demands t.leaves (c.toStorage source t)
  | .primitive p, _ => (demands_entry p).map _
  | .vector e, _ => (demands_spell .storage (.vector e)).again fun _ =>
    (demands_toStorage e _).map _
  | .set e, _ => (demands_spell .storage (.set e)).again fun _ => (demands_toStorage e _).map _
  | .map k v, _ => (demands_spell .storage (.map k v)).again fun _ =>
    (demands_toStorage k _).bind fun _ _ => (demands_toStorage v _).map _

theorem demands_toHost : ∀ (t : ElementType) (source : Expr),
    c.Demands t.leaves (c.toHost source t)
  | .primitive p, _ => (demands_entry p).map _
  | .vector e, _ => (demands_spell .storage (.vector e)).again fun _ => (demands_toHost e _).map _
  | .set e, _ => (demands_spell .storage (.set e)).again fun _ => (demands_toHost e _).map _
  | .map k v, _ => (demands_spell .storage (.map k v)).again fun _ =>
    (demands_toHost k _).bind fun _ _ => (demands_toHost v _).map _

/-- The host kinds that a composite is converted from are the same in every catalog. -/
theorem exists_accepts {t : ElementType} (h : ∀ p ∈ t.leaves, c.hasEntry p = true) :
    ∃ kinds, c.accepts t = .ok kinds := by
  cases t with
  | primitive p =>
    obtain ⟨e, he⟩ := (demands_entry p).ok_iff.mpr h
    exact ⟨e.accepts, by rw [accepts, he]; rfl⟩
  | vector | set | map => exact ⟨_, rfl⟩

end

/-! ## The built-in catalog -/

theorem hasEntry_builtin (p : Primitive) : builtin.hasEntry p = true := by
  cases p <;> rfl

/-- The built-in catalog has all that is demanded. -/
theorem Demands.exists_ok {α : Type} {ps : List Primitive} {x : Except DescriptorError α}
    (h : builtin.Demands ps x) : ∃ a, x = .ok a :=
  h.ok_iff.mpr fun p _ => hasEntry_builtin p

/-- The built-in catalog spells every type. -/
theorem spell_builtin (s : Spelling) (t : ElementType) : ∃ text, builtin.spell s t = .ok text :=
  (demands_spell s t).exists_ok

end Catalog

end WrapGen
