import WrapGen.Proofs.Catalog.NormalForm

/-!
# Catalogs made by registrations

A registration may give any token to its primitive, also one that another primitive
had, its own token included. So a catalog may resolve a descriptor to a type whose own
descriptor it resolves to another type, or not at all. Registrations leave the heads
alone: every container that some head names is named by its own token (`Headed`).

* `Registered`: the catalogs that registrations lead to.
* `known_of_resolveAt`: what a descriptor resolves to is made of primitives and
  containers that some token or head names.
* `resolve_idempotent_iff`: resolving again changes nothing if and only if every
  primitive that some token names is named by its own token.
-/
namespace WrapGen.Catalog

open ElementType

/-! ## Registrations -/

/-- The catalogs that registrations, one after the other, make of a given one. -/
inductive Registered (base : Catalog) : Catalog → Prop
  | base : Registered base base
  | register {c : Catalog} (h : Registered base c) (p : Primitive) (aliases : List String)
    (e : Entry) : Registered base (c.register p aliases e)

/-- Every container that some head names is named by its own token. -/
def Headed (c : Catalog) : Prop := ∀ h q, c.container? h = some q → c.container? q.token = some q

theorem headed_empty : empty.Headed := nofun

theorem headed_containers : containers.Headed := by
  intro h q _
  cases q <;> rfl

theorem headed_builtin : builtin.Headed := headed_containers

theorem Registered.headed {base c : Catalog} (h : Registered base c) (hb : base.Headed) :
    c.Headed := by
  induction h with
  | base => exact hb
  | register _ p aliases e ih => exact ih

/-! ## What types are made of -/

/-- The primitives of a type are named by some token, and its containers by some head. -/
structure Known (c : Catalog) (t : ElementType) : Prop where
  leaves : ∀ p ∈ t.leaves, ∃ s, c.primitive? s = some p
  containers : ∀ q ∈ t.containers, ∃ h, c.container? h = some q

section
variable {c : Catalog} {e k v : ElementType}

theorem known_vector {head : String} (hq : c.container? head = some .vector) (he : c.Known e) :
    c.Known (.vector e) :=
  ⟨he.leaves, List.forall_mem_cons.mpr ⟨⟨head, hq⟩, he.containers⟩⟩

theorem known_set {head : String} (hq : c.container? head = some .set) (he : c.Known e) :
    c.Known (.set e) :=
  ⟨he.leaves, List.forall_mem_cons.mpr ⟨⟨head, hq⟩, he.containers⟩⟩

theorem known_map {head : String} (hq : c.container? head = some .map) (hk : c.Known k)
    (hv : c.Known v) : c.Known (.map k v) :=
  ⟨List.forall_mem_append.mpr ⟨hk.leaves, hv.leaves⟩,
    List.forall_mem_cons.mpr ⟨⟨head, hq⟩, List.forall_mem_append.mpr
      ⟨hk.containers, hv.containers⟩⟩⟩

end

theorem container_of_resolveHead {c : Catalog} {head : String} {found : Nat} {q : Container}
    (h : c.resolveHead head found = .ok q) : c.container? head = some q := by
  unfold resolveHead at h
  split at h
  · split at h
    · cases h
      assumption
    · cases h
  · split at h <;> cases h

/-- A descriptor resolves to a type that is made of what tokens and heads name. -/
theorem known_of_resolveAt {c : Catalog} : ∀ {d : Descriptor} {depth : Nat} {t : ElementType},
    c.resolveAt depth d = .ok t → c.Known t
  | .token token, _, _, h => by
    obtain ⟨p, hp, rfl⟩ := resolveToken_eq_ok h
    exact ⟨List.forall_mem_singleton.mpr ⟨token, hp⟩, List.forall_mem_nil _⟩
  | .applied head args, depth, t, h => by
    rw [resolveAt] at h
    split at h
    · cases h
    rename_i q hhead
    have hq := container_of_resolveHead hhead
    split at h
    · cases h
    split at h
    · obtain ⟨element, he, h⟩ := bind_eq_ok h
      cases h
      exact known_vector hq (known_of_resolveAt he)
    · obtain ⟨element, he, h⟩ := bind_eq_ok h
      obtain ⟨key, hkey, h⟩ := bind_eq_ok h
      cases h
      obtain ⟨rfl, -⟩ := asKey_eq_ok hkey
      exact known_set hq (known_of_resolveAt he)
    · obtain ⟨key, hk, h⟩ := bind_eq_ok h
      obtain ⟨value, hv, h⟩ := bind_eq_ok h
      obtain ⟨key', hkey, h⟩ := bind_eq_ok h
      cases h
      obtain ⟨rfl, -⟩ := asKey_eq_ok hkey
      exact known_map hq (known_of_resolveAt hk) (known_of_resolveAt hv)
    · cases h

/-! ## Resolving again -/

theorem resolve_token_eq_ok_iff {c : Catalog} {s : String} {p : Primitive} :
    c.resolve (.token s) = .ok (.primitive p) ↔ c.primitive? s = some p := by
  constructor
  · intro h
    obtain ⟨q, hq, hp⟩ := resolveToken_eq_ok h
    cases hp
    exact hq
  · exact resolveToken_of_primitive

/-- The type that a descriptor resolves to is resolved to itself, if the primitives that
are named at all are named by their own tokens. -/
theorem resolve_toDescriptor_of_resolve {c : Catalog} (hc : c.Headed)
    (hown : ∀ p s, c.primitive? s = some p → c.primitive? p.token = some p) {d : Descriptor}
    {t : ElementType} (h : c.resolve d = .ok t) : c.resolve t.toDescriptor = .ok t := by
  have hknown := known_of_resolveAt h
  have hspells : c.Spells t := by
    constructor
    case leaves =>
      intro p hp
      obtain ⟨s, hs⟩ := hknown.leaves p hp
      exact hown p s hs
    case containers =>
      intro q hq
      obtain ⟨head, hhead⟩ := hknown.containers q hq
      exact hc head q hhead
  exact hspells.resolveAt (resolveAt_isNormal (Nat.zero_le _) h)

/-- Whatever has been registered, resolving the descriptor of a type that some descriptor
resolves to gives that type again, if and only if every primitive that some token names
is named by its own token. -/
theorem resolve_idempotent_iff {base c : Catalog} (hb : base ∈ [empty, containers, builtin])
    (hc : Registered base c) :
    (∀ d t, c.resolve d = .ok t → c.resolve t.toDescriptor = .ok t) ↔
      ∀ p : Primitive, (∃ s, c.resolve (.token s) = .ok (.primitive p)) →
        c.resolve (.token p.token) = .ok (.primitive p) := by
  have hheaded : c.Headed := by
    refine hc.headed ?_
    simp only [List.mem_cons, List.not_mem_nil, or_false] at hb
    rcases hb with rfl | rfl | rfl
    · exact headed_empty
    · exact headed_containers
    · exact headed_builtin
  constructor
  · rintro h p ⟨s, hs⟩
    exact h (.token s) (.primitive p) hs
  · intro h d t hd
    refine resolve_toDescriptor_of_resolve hheaded (fun p s hs => ?_) hd
    exact resolve_token_eq_ok_iff.mp (h p ⟨s, resolve_token_eq_ok_iff.mpr hs⟩)

/-- A primitive may take the token of a container, but not that of another primitive. -/
theorem resolve_idempotent_iff_taken :
    let e := integerEntry "int" "Int" "int" "int"
    let c := builtin.register .int32 ["vector"] e
    let c' := builtin.register .int32 ["str"] e
    (∀ d t, c.resolve d = .ok t → c.resolve t.toDescriptor = .ok t) ∧
      ¬ ∀ d t, c'.resolve d = .ok t → c'.resolve t.toDescriptor = .ok t := by
  intro e c c'
  have hc : Registered builtin c := .register .base _ _ _
  have hc' : Registered builtin c' := .register .base _ _ _
  constructor
  · refine (resolve_idempotent_iff (by simp) hc).mpr fun p _ => ?_
    cases p <;> rfl
  · intro h
    have hstr := (resolve_idempotent_iff (by simp) hc').mp h .str ⟨"string", rfl⟩
    have hint : c'.resolve (.token "str") = .ok (.primitive .int32) := rfl
    cases hint.symm.trans hstr

end WrapGen.Catalog
