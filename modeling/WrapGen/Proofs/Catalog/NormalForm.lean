import Mathlib.Tactic.TFAE
import WrapGen.Catalog.Builtin
import WrapGen.Catalog.Resolve
import WrapGen.Proofs.Catalog.Entries
import WrapGen.Proofs.Descriptor.Reading
import WrapGen.Proofs.Results

/-!
# The types that descriptors name

An element type may be built in any way; not every one is what some descriptor
names. Those that are (`IsNormal`) have ordered primitives as keys, everywhere
inside, and nest at most `Descriptor.maxNesting` containers.

* `resolveAt_isNormal`: what any catalog resolves a descriptor to is normal.
* `Spells.resolveAt`: a catalog resolves the descriptor of a normal type to that type
  if the tokens in it mean what they say.
* `resolveAt_toDescriptor`: so does the built-in catalog, for every normal type.
* `wellFormed_toDescriptor`: the descriptor of a normal type is well formed, so
  its text is read back.
* `named_tfae`: being named by some descriptor, by one's own descriptor, by
  one's own text, and being normal are the same.
-/
namespace WrapGen

namespace ElementType

/-! ## Normal types -/

/-- The set elements and map keys that occur anywhere inside a type. -/
def keys : ElementType → List ElementType
  | primitive _ => []
  | vector e => e.keys
  | set e => e :: e.keys
  | map k v => k :: (k.keys ++ v.keys)

/-- The containers that occur in a type. -/
def containers : ElementType → List Container
  | primitive _ => []
  | vector e => .vector :: e.containers
  | set e => .set :: e.containers
  | map k v => .map :: (k.containers ++ v.containers)

/-- The number of containers on the longest path. -/
def nesting : ElementType → Nat
  | primitive _ => 0
  | vector e => e.nesting + 1
  | set e => e.nesting + 1
  | map k v => max k.nesting v.nesting + 1

/-- A type that may stand inside `depth` containers. -/
structure IsNormal (t : ElementType) (depth : Nat) : Prop where
  keys : ∀ k ∈ t.keys, k.isKey = true
  nesting : t.nesting + depth ≤ Descriptor.maxNesting

theorem isKey_iff {t : ElementType} :
    t.isKey = true ↔ ∃ p : Primitive, p ≠ .complex128 ∧ t = .primitive p := by
  have hordered : ∀ p : Primitive, p.isOrdered = true ↔ p ≠ .complex128 := by
    intro p
    cases p <;> decide
  cases t <;> simp [isKey, primitive?, hordered]

section
variable {e k v : ElementType} {depth : Nat}

theorem isNormal_primitive_iff {p : Primitive} :
    IsNormal (.primitive p) depth ↔ depth ≤ Descriptor.maxNesting := by
  constructor
  · intro h
    simpa [ElementType.nesting] using h.nesting
  · intro h
    exact ⟨List.forall_mem_nil _, by simpa [ElementType.nesting] using h⟩

theorem isNormal_vector_iff : IsNormal (.vector e) depth ↔ e.IsNormal (depth + 1) := by
  constructor
  · rintro ⟨hkeys, hnesting⟩
    exact ⟨hkeys, by rw [ElementType.nesting] at hnesting; omega⟩
  · rintro ⟨hkeys, hnesting⟩
    exact ⟨hkeys, by rw [ElementType.nesting]; omega⟩

theorem isNormal_set_iff :
    IsNormal (.set e) depth ↔ e.isKey = true ∧ e.IsNormal (depth + 1) := by
  constructor
  · rintro ⟨hkeys, hnesting⟩
    obtain ⟨hkey, hkeys⟩ := List.forall_mem_cons.mp hkeys
    exact ⟨hkey, hkeys, by rw [ElementType.nesting] at hnesting; omega⟩
  · rintro ⟨hkey, hkeys, hnesting⟩
    exact ⟨List.forall_mem_cons.mpr ⟨hkey, hkeys⟩, by rw [ElementType.nesting]; omega⟩

theorem isNormal_map_iff : IsNormal (.map k v) depth ↔
    k.isKey = true ∧ k.IsNormal (depth + 1) ∧ v.IsNormal (depth + 1) := by
  constructor
  · rintro ⟨hkeys, hnesting⟩
    obtain ⟨hkey, hkeys⟩ := List.forall_mem_cons.mp hkeys
    obtain ⟨hk, hv⟩ := List.forall_mem_append.mp hkeys
    rw [ElementType.nesting] at hnesting
    exact ⟨hkey, ⟨hk, by omega⟩, ⟨hv, by omega⟩⟩
  · rintro ⟨hkey, ⟨hk, hkn⟩, hv, hvn⟩
    refine ⟨List.forall_mem_cons.mpr ⟨hkey, List.forall_mem_append.mpr ⟨hk, hv⟩⟩, ?_⟩
    rw [ElementType.nesting]
    omega

/-- What stands inside another container is not at the bound. -/
theorem IsNormal.depth_ne (h : e.IsNormal (depth + 1)) : depth ≠ Descriptor.maxNesting := by
  have := h.nesting
  omega

end

/-! ## The descriptor of a type -/

open Descriptor in
theorem isName_token (p : Primitive) : IsName p.token.toList := by
  cases p <;> exact isName_of_word (by decide) (by decide)

open Descriptor in
theorem isName_head (c : Container) : IsName c.token.toList := by
  cases c <;> exact isName_of_word (by decide) (by decide)

theorem named_toDescriptor : ∀ t : ElementType, t.toDescriptor.Named
  | primitive p => isName_token p
  | vector e => ⟨isName_head .vector, by simp, named_toDescriptor e, trivial⟩
  | set e => ⟨isName_head .set, by simp, named_toDescriptor e, trivial⟩
  | map k v => ⟨isName_head .map, by simp, named_toDescriptor k, named_toDescriptor v, trivial⟩

theorem nesting_toDescriptor : ∀ t : ElementType, t.toDescriptor.nesting = t.nesting
  | primitive _ => rfl
  | vector e => by
    simp [toDescriptor, Descriptor.nesting, Descriptor.nestingAll, nesting,
      nesting_toDescriptor e]
  | set e => by
    simp [toDescriptor, Descriptor.nesting, Descriptor.nestingAll, nesting,
      nesting_toDescriptor e]
  | map k v => by
    simp [toDescriptor, Descriptor.nesting, Descriptor.nestingAll, nesting,
      nesting_toDescriptor k, nesting_toDescriptor v]

theorem wellFormed_toDescriptor {t : ElementType} (h : t.IsNormal 0) :
    t.toDescriptor.WellFormed :=
  ⟨named_toDescriptor t, by rw [nesting_toDescriptor]; exact h.nesting⟩

end ElementType

namespace Catalog

open ElementType

/-! ## Resolving -/

theorem resolveToken_eq_ok {c : Catalog} {token : String} {t : ElementType}
    (h : c.resolveToken token = .ok t) : ∃ p, c.primitive? token = some p ∧ t = .primitive p := by
  unfold resolveToken at h
  split at h
  · cases h
    exact ⟨_, ‹_›, rfl⟩
  · cases h
  · cases h

/-- What a catalog resolves a descriptor to is normal, whatever the catalog knows. -/
theorem resolveAt_isNormal {c : Catalog} : ∀ {d : Descriptor} {depth : Nat} {t : ElementType},
    depth ≤ Descriptor.maxNesting → c.resolveAt depth d = .ok t → t.IsNormal depth
  | .token token, depth, t, hdepth, h => by
    obtain ⟨p, -, rfl⟩ := resolveToken_eq_ok h
    exact isNormal_primitive_iff.mpr hdepth
  | .applied head args, depth, t, hdepth, h => by
    rw [resolveAt] at h
    split at h
    · cases h
    split at h
    · cases h
    have hinner : depth + 1 ≤ Descriptor.maxNesting := by omega
    split at h
    · obtain ⟨element, he, h⟩ := bind_eq_ok h
      cases h
      exact isNormal_vector_iff.mpr (resolveAt_isNormal hinner he)
    · obtain ⟨element, he, h⟩ := bind_eq_ok h
      obtain ⟨key, hkey, h⟩ := bind_eq_ok h
      cases h
      obtain ⟨rfl, hkey⟩ := asKey_eq_ok hkey
      exact isNormal_set_iff.mpr ⟨hkey, resolveAt_isNormal hinner he⟩
    · obtain ⟨key, hk, h⟩ := bind_eq_ok h
      obtain ⟨value, hv, h⟩ := bind_eq_ok h
      obtain ⟨key', hkey, h⟩ := bind_eq_ok h
      cases h
      obtain ⟨rfl, hkey⟩ := asKey_eq_ok hkey
      exact isNormal_map_iff.mpr
        ⟨hkey, resolveAt_isNormal hinner hk, resolveAt_isNormal hinner hv⟩
    · cases h

section
variable {c : Catalog} {head : String} {depth : Nat} {d k v : Descriptor}

theorem resolveAt_vector (hq : c.container? head = some .vector)
    (hd : depth ≠ Descriptor.maxNesting) : c.resolveAt depth (.applied head [d]) = do
      return .vector (← c.resolveAt (depth + 1) d) := by
  rw [resolveAt, show [d].length = Container.vector.arity from rfl, resolveHead_of_container hq,
    if_pos rfl]
  exact if_neg hd

theorem resolveAt_set (hq : c.container? head = some .set) (hd : depth ≠ Descriptor.maxNesting) :
    c.resolveAt depth (.applied head [d]) = do
      let element ← c.resolveAt (depth + 1) d
      return .set (← element.asKey) := by
  rw [resolveAt, show [d].length = Container.set.arity from rfl, resolveHead_of_container hq,
    if_pos rfl]
  exact if_neg hd

theorem resolveAt_map (hq : c.container? head = some .map) (hd : depth ≠ Descriptor.maxNesting) :
    c.resolveAt depth (.applied head [k, v]) = do
      let key ← c.resolveAt (depth + 1) k
      let value ← c.resolveAt (depth + 1) v
      return .map (← key.asKey) value := by
  rw [resolveAt, show [k, v].length = Container.map.arity from rfl, resolveHead_of_container hq,
    if_pos rfl]
  exact if_neg hd

end

/-- In a type, every primitive and every container is what its own token names. -/
structure Spells (c : Catalog) (t : ElementType) : Prop where
  leaves : ∀ p ∈ t.leaves, c.primitive? p.token = some p
  containers : ∀ q ∈ t.containers, c.container? q.token = some q

/-- A catalog resolves the descriptor of a normal type that it spells to that type. -/
theorem Spells.resolveAt {c : Catalog} : ∀ {t : ElementType} {depth : Nat}, c.Spells t →
    t.IsNormal depth → c.resolveAt depth t.toDescriptor = .ok t
  | .primitive p, depth, hs, _ => by
    rw [toDescriptor, Catalog.resolveAt,
      resolveToken_of_primitive (hs.leaves p List.mem_cons_self)]
  | .vector e, depth, hs, h => by
    have hinner := isNormal_vector_iff.mp h
    obtain ⟨hvector, hcontainers⟩ := List.forall_mem_cons.mp hs.containers
    have helement : c.Spells e := ⟨hs.leaves, hcontainers⟩
    rw [toDescriptor, resolveAt_vector hvector hinner.depth_ne, helement.resolveAt hinner]
    rfl
  | .set e, depth, hs, h => by
    obtain ⟨hkey, hinner⟩ := isNormal_set_iff.mp h
    obtain ⟨hset, hcontainers⟩ := List.forall_mem_cons.mp hs.containers
    have helement : c.Spells e := ⟨hs.leaves, hcontainers⟩
    rw [toDescriptor, resolveAt_set hset hinner.depth_ne, helement.resolveAt hinner]
    simp only [bind, Except.bind, pure, Except.pure, asKey_of_isKey hkey]
  | .map k v, depth, hs, h => by
    obtain ⟨hkey, hk, hv⟩ := isNormal_map_iff.mp h
    obtain ⟨hmap, hcontainers⟩ := List.forall_mem_cons.mp hs.containers
    obtain ⟨hkl, hvl⟩ := List.forall_mem_append.mp hs.leaves
    obtain ⟨hkc, hvc⟩ := List.forall_mem_append.mp hcontainers
    have hks : c.Spells k := ⟨hkl, hkc⟩
    have hvs : c.Spells v := ⟨hvl, hvc⟩
    rw [toDescriptor, resolveAt_map hmap hk.depth_ne, hks.resolveAt hk, hvs.resolveAt hv]
    simp only [bind, Except.bind, pure, Except.pure, asKey_of_isKey hkey]

theorem builtin_spells (t : ElementType) : builtin.Spells t where
  leaves p _ := by cases p <;> rfl
  containers q _ := by cases q <;> rfl

/-- The built-in catalog resolves the descriptor of a normal type to that type. -/
theorem resolveAt_toDescriptor {t : ElementType} {depth : Nat} (h : t.IsNormal depth) :
    builtin.resolveAt depth t.toDescriptor = .ok t :=
  (builtin_spells t).resolveAt h

theorem resolveText_text {t : ElementType} (h : t.IsNormal 0) :
    builtin.resolveText t.text = .ok t := by
  rw [resolveText, ElementType.text, Descriptor.parse_text (wellFormed_toDescriptor h)]
  exact resolveAt_toDescriptor h

theorem exists_resolve_of_resolveText {c : Catalog} {text : String} {t : ElementType}
    (h : c.resolveText text = .ok t) : ∃ d, c.resolve d = .ok t := by
  obtain ⟨d, -, hd⟩ := bind_eq_ok h
  exact ⟨d, hd⟩

/-- The types that the built-in catalog resolves anything to: each is named by its
own descriptor and by its own text, and they are those with ordered primitives as
keys and bounded nesting. -/
theorem named_tfae (t : ElementType) : List.TFAE [
    ∃ d, builtin.resolve d = .ok t,
    builtin.resolve t.toDescriptor = .ok t,
    builtin.resolveText t.text = .ok t,
    (∀ k ∈ t.keys, ∃ p : Primitive, p ≠ .complex128 ∧ k = .primitive p) ∧
      t.nesting ≤ Descriptor.maxNesting] := by
  have hnormal : ((∀ k ∈ t.keys, ∃ p : Primitive, p ≠ .complex128 ∧ k = .primitive p) ∧
      t.nesting ≤ Descriptor.maxNesting) ↔ t.IsNormal 0 := by
    simp only [← isKey_iff]
    exact ⟨fun h => ⟨h.1, h.2⟩, fun h => ⟨h.keys, h.nesting⟩⟩
  rw [hnormal]
  tfae_have 1 → 4 := by
    rintro ⟨d, hd⟩
    exact resolveAt_isNormal (Nat.zero_le _) hd
  tfae_have 4 → 2 := resolveAt_toDescriptor
  tfae_have 4 → 3 := resolveText_text
  tfae_have 2 → 1 := fun h => ⟨_, h⟩
  tfae_have 3 → 1 := exists_resolve_of_resolveText
  tfae_finish

end Catalog

end WrapGen
