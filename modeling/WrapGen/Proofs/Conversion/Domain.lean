import WrapGen.Catalog.Builtin
import WrapGen.Proofs.Results
import WrapGen.Proofs.Value.Ordered
import WrapGen.Wrapper.Content

/-!
# Which values have a storage form

A value is converted to a type together with all values inside it, each to its part of
the type. `ElementType.nodes` lists these pairs in the order in which they are looked at:
a value before its items, items from left to right, the key of an entry before its value.
A pair is at fault on its own if the value is of a kind that the type does not take, or an
integer out of the range of the primitive (`Node.fault?`).

* `failure?_toDatum`: a conversion fails with the fault of the first pair at fault, and
  only then.
* `describes_iff`: no kind is at fault exactly if the value has the structure of the type.
* `conversion_exact`: which values are converted, what is stored of them, and how the
  others fail.
* `accepted_of_toDatum`: the built-in catalog accepts whatever is converted.
-/
namespace WrapGen

/-! ## Structure -/

/-- The kinds of host values that a primitive takes. -/
def Primitive.takes : Primitive → List HostKind
  | .str => [.str]
  | .int32 | .uint32 | .int64 | .uint64 => [.int]
  | .float32 | .float64 => [.float, .int]
  | .complex128 => [.complex, .float, .int]

namespace ElementType

/-- The kinds of host values that a type takes. -/
def takes : ElementType → List HostKind
  | .primitive p => p.takes
  | .vector _ => [.list, .tuple]
  | .set _ => [.set]
  | .map _ _ => [.dict]

/-- Whether a value is of a kind that a type takes. -/
def takesKind (t : ElementType) (v : HostValue) : Bool := v.kind?.any t.takes.contains

/-- A value has the structure of a type: a list or a tuple for a vector, a set for a set,
a dict for a map, and at every leaf a value of a kind that the primitive takes. -/
def Describes : ElementType → HostValue → Prop
  | .primitive p, v => (primitive p).takesKind v = true
  | .vector e, v =>
    match v with
    | .list items | .tuple items => ∀ x ∈ items, Describes e x
    | _ => False
  | .set e, v =>
    match v with
    | .set items => ∀ x ∈ items, Describes e x
    | _ => False
  | .map k t, v =>
    match v with
    | .dict entries => ∀ p ∈ entries, Describes k p.1 ∧ Describes t p.2
    | _ => False

end ElementType

/-! ## Nodes -/

namespace ElementType

/-- A value and the type it is converted to. -/
structure Node where
  type : ElementType
  value : HostValue

/-- The fault of a value itself, whatever is inside it. -/
def Node.fault? (node : Node) : Option Fault :=
  if node.type.takesKind node.value then
    match node.type, node.value with
    | .primitive p, .int n =>
      match p.integerKind? with
      | some k => if k.least ≤ n ∧ n ≤ k.greatest then none else some (.outOfRange n p)
      | none => none
    | _, _ => none
  else some (.inconvertible node.value.typeName node.type.headToken)

/-- The values that are converted when a value is converted to a type, each with its type:
the value itself, then the values inside it from left to right, keys before values. -/
def nodes : ElementType → HostValue → List Node
  | .primitive p, v => [⟨.primitive p, v⟩]
  | .vector e, v => ⟨.vector e, v⟩ ::
    match v with
    | .list items | .tuple items => items.flatMap (nodes e)
    | _ => []
  | .set e, v => ⟨.set e, v⟩ ::
    match v with
    | .set items => items.flatMap (nodes e)
    | _ => []
  | .map k t, v => ⟨.map k t, v⟩ ::
    match v with
    | .dict entries => entries.flatMap fun p => nodes k p.1 ++ nodes t p.2
    | _ => []

/-- A value is looked at before the values inside it. -/
theorem nodes_eq_cons (t : ElementType) (v : HostValue) :
    ∃ inside, t.nodes v = ⟨t, v⟩ :: inside := by
  cases t <;> exact ⟨_, rfl⟩

/-- Every integer that is converted to an integer primitive is in its range. -/
def InRange (t : ElementType) (v : HostValue) : Prop :=
  ∀ (p : Primitive) (k : IntegerKind) (n : Int), ⟨.primitive p, .int n⟩ ∈ t.nodes v →
    p.integerKind? = some k → k.least ≤ n ∧ n ≤ k.greatest

/-- The first value at fault has the fault `f`. -/
def FirstFault (t : ElementType) (v : HostValue) (f : Fault) : Prop :=
  ∃ before node after, t.nodes v = before ++ node :: after ∧
    (∀ earlier ∈ before, earlier.fault? = none) ∧ node.fault? = some f

end ElementType

/-! ## Faults -/

/-- An integer is stored as it is, if it fits. -/
theorem Primitive.toDatum_integer {p : Primitive} {k : IntegerKind} (h : p.integerKind? = some k)
    (n : Int) : p.toDatum (.int n) = match k.ofInt? n with
      | some r => .ok (.integer k r)
      | none => .error (.outOfRange n p) := by
  cases p <;> cases h <;> rfl

theorem Primitive.failure?_toDatum (p : Primitive) (v : HostValue) :
    failure? (p.toDatum v) = ElementType.Node.fault? ⟨.primitive p, v⟩ := by
  cases v with
  | int n =>
    cases hk : p.integerKind? with
    | none => cases p <;> first | rfl | cases hk
    | some k =>
      have htakes : (ElementType.primitive p).takesKind (.int n) = true := by
        cases p <;> first | rfl | cases hk
      rw [p.toDatum_integer hk, ElementType.Node.fault?, if_pos htakes]
      by_cases hfits : k.least ≤ n ∧ n ≤ k.greatest
      · simp only [hk, IntegerKind.ofInt?, dif_pos hfits, if_pos hfits]
        rfl
      · simp only [hk, IntegerKind.ofInt?, dif_neg hfits, if_neg hfits]
        rfl
  | _ => cases p <;> rfl

/-- A conversion fails with the fault of the first value at fault, and only then. -/
theorem ElementType.failure?_toDatum : ∀ (t : ElementType) (v : HostValue),
    failure? (t.toDatum v) = (t.nodes v).findSome? Node.fault?
  | .primitive p, v => by
    rw [toDatum, nodes, p.failure?_toDatum v, List.findSome?_cons]
    cases Node.fault? ⟨.primitive p, v⟩ <;> rfl
  | .vector e, v => by
    have hitems : ∀ items : List HostValue,
        failure? (do return Datum.vector (← items.mapM (toDatum e))) =
          (items.flatMap (nodes e)).findSome? Node.fault? := by
      intro items
      rw [failure?_map, failure?_mapM, findSome?_flatMap]
      simp only [failure?_toDatum e]
    cases v with
    | list items => exact hitems items
    | tuple items => exact hitems items
    | _ => rfl
  | .set e, v => by
    cases v with
    | set items =>
      show failure? (do return Datum.set (Ordered.ofList id (← items.mapM (toDatum e)))) =
        (items.flatMap (nodes e)).findSome? Node.fault?
      rw [failure?_map, failure?_mapM, findSome?_flatMap]
      simp only [failure?_toDatum e]
    | _ => rfl
  | .map k t, v => by
    cases v with
    | dict entries =>
      show failure? (do
          return Datum.map (Ordered.ofList Prod.fst (← entries.mapM (Content.storeEntry k t)))) =
        (entries.flatMap fun p => nodes k p.1 ++ nodes t p.2).findSome? Node.fault?
      rw [failure?_map, failure?_mapM, findSome?_flatMap]
      simp only [Content.storeEntry, failure?_pair, failure?_toDatum k, failure?_toDatum t,
        List.findSome?_append]
    | _ => rfl

/-! ## Structure and ranges by nodes -/

namespace ElementType

theorem Node.fault?_eq_none_iff {t : ElementType} {v : HostValue} : Node.fault? ⟨t, v⟩ = none ↔
    t.takesKind v = true ∧ ∀ (p : Primitive) (k : IntegerKind) (n : Int),
      t = .primitive p → v = .int n → p.integerKind? = some k → k.least ≤ n ∧ n ≤ k.greatest := by
  unfold Node.fault?
  by_cases htakes : t.takesKind v = true
  · rw [if_pos htakes, and_iff_right htakes]
    constructor
    · rintro h p k n rfl rfl hk
      simp only [hk] at h
      by_contra hfits
      rw [if_neg hfits] at h
      cases h
    · intro h
      split
      · rename_i p n ht hv
        split
        · rename_i k hk
          exact if_pos (h p k n ht hv hk)
        · rfl
      · rfl
  · rw [if_neg htakes]
    exact ⟨nofun, fun h => absurd h.1 htakes⟩

/-- Every value of a list of nodes is of a kind that its type takes. -/
def Kinded (nodes : List Node) : Prop := ∀ node ∈ nodes, node.type.takesKind node.value = true

theorem kinded_cons {t : ElementType} {v : HostValue} {nodes : List Node} :
    Kinded (⟨t, v⟩ :: nodes) ↔ t.takesKind v = true ∧ Kinded nodes := List.forall_mem_cons

theorem kinded_inside {t : ElementType} {v : HostValue} (h : t.takesKind v = true)
    {nodes : List Node} : Kinded (⟨t, v⟩ :: nodes) ↔ Kinded nodes :=
  kinded_cons.trans (and_iff_right h)

theorem kinded_append {before after : List Node} :
    Kinded (before ++ after) ↔ Kinded before ∧ Kinded after := List.forall_mem_append

theorem kinded_flatMap {α : Type} {f : α → List Node} {xs : List α} :
    Kinded (xs.flatMap f) ↔ ∀ x ∈ xs, Kinded (f x) := List.forall_mem_flatMap

/-- A value has the structure of a type exactly if no kind is at fault. -/
theorem describes_iff : ∀ {t : ElementType} {v : HostValue}, t.Describes v ↔ Kinded (t.nodes v)
  | .primitive p, v => by rw [Describes, nodes, Kinded, List.forall_mem_singleton]
  | .vector e, v => by
    have hitems : ∀ items : List HostValue,
        (∀ x ∈ items, e.Describes x) ↔ Kinded (items.flatMap (nodes e)) := fun items =>
      (forall₂_congr fun _ _ => describes_iff).trans kinded_flatMap.symm
    cases v with
    | list items => exact (hitems items).trans (kinded_inside (v := .list items) rfl).symm
    | tuple items => exact (hitems items).trans (kinded_inside (v := .tuple items) rfl).symm
    | _ => exact ⟨False.elim, fun h => by cases (kinded_cons.mp h).1⟩
  | .set e, v => by
    cases v with
    | set items =>
      have hitems : (∀ x ∈ items, e.Describes x) ↔ Kinded (items.flatMap (nodes e)) :=
        (forall₂_congr fun _ _ => describes_iff).trans kinded_flatMap.symm
      exact hitems.trans (kinded_inside (v := .set items) rfl).symm
    | _ => exact ⟨False.elim, fun h => by cases (kinded_cons.mp h).1⟩
  | .map k t, v => by
    cases v with
    | dict entries =>
      have hentry : ∀ p : HostValue × HostValue,
          k.Describes p.1 ∧ t.Describes p.2 ↔ Kinded (k.nodes p.1 ++ t.nodes p.2) := fun p =>
        (and_congr describes_iff describes_iff).trans kinded_append.symm
      have hentries : (∀ p ∈ entries, k.Describes p.1 ∧ t.Describes p.2) ↔
          Kinded (entries.flatMap fun p => k.nodes p.1 ++ t.nodes p.2) :=
        (forall₂_congr fun p _ => hentry p).trans kinded_flatMap.symm
      exact hentries.trans (kinded_inside (v := .dict entries) rfl).symm
    | _ => exact ⟨False.elim, fun h => by cases (kinded_cons.mp h).1⟩

/-- A value is converted exactly if it has the structure of the type and its integers are
in range. -/
theorem exists_toDatum_iff (t : ElementType) (v : HostValue) :
    (∃ d, t.toDatum v = .ok d) ↔ t.Describes v ∧ t.InRange v := by
  rw [← failure?_eq_none_iff, failure?_toDatum, List.findSome?_eq_none_iff, describes_iff]
  constructor
  · intro h
    refine ⟨fun node hnode => (Node.fault?_eq_none_iff.mp (h node hnode)).1, ?_⟩
    intro p k n hnode hk
    exact (Node.fault?_eq_none_iff.mp (h _ hnode)).2 p k n rfl rfl hk
  · rintro ⟨hkinds, hrange⟩ ⟨t', v'⟩ hnode
    refine Node.fault?_eq_none_iff.mpr ⟨hkinds _ hnode, ?_⟩
    rintro p k n rfl rfl hk
    exact hrange p k n hnode hk

/-- A conversion fails with the first fault. -/
theorem toDatum_eq_error_iff {t : ElementType} {v : HostValue} {f : Fault} :
    t.toDatum v = .error f ↔ t.FirstFault v f := by
  rw [← failure?_eq_some_iff, failure?_toDatum, List.findSome?_eq_some_iff]
  simp only [FirstFault, and_comm]

/-! ## What is stored -/

/-- A datum holds a value leaf by leaf: at the leaves of integer primitives the integer
itself. A stored set holds its members without order and duplicates; a stored map holds
every key, and under each the value of an entry with that key. -/
def Holds : ElementType → HostValue → Datum → Prop
  | .primitive p, v, d => p.toDatum v = .ok d ∧
      ∀ k, p.integerKind? = some k → ∃ n : k.Ranged, v = .int n.val ∧ d = .integer k n
  | .vector e, v, d => ∃ items ds, (v = .list items ∨ v = .tuple items) ∧ d = .vector ds ∧
      List.Forall₂ (Holds e) items ds
  | .set e, v, d => ∃ items ds, v = .set items ∧ d = .set ds ∧
      (∀ x ∈ items, ∃ y ∈ ds, Holds e x y) ∧ ∀ y ∈ ds, ∃ x ∈ items, Holds e x y
  | .map k t, v, d => ∃ entries es, v = .dict entries ∧ d = .map es ∧
      (∀ p ∈ entries, ∃ e ∈ es, Holds k p.1 e.1) ∧
      ∀ e ∈ es, ∃ p ∈ entries, Holds k p.1 e.1 ∧ Holds t p.2 e.2

theorem holds_primitive {p : Primitive} {v : HostValue} {d : Datum} (h : p.toDatum v = .ok d) :
    (primitive p).Holds v d := by
  refine ⟨h, fun k hk => ?_⟩
  cases v with
  | int n =>
    rw [p.toDatum_integer hk] at h
    cases hr : k.ofInt? n with
    | none =>
      rw [hr] at h
      cases h
    | some r =>
      rw [hr] at h
      cases h
      exact ⟨r, by rw [IntegerKind.val_of_ofInt? hr], rfl⟩
  | _ => cases p <;> first | (cases h; done) | cases hk

/-- What a value is converted to holds it. -/
theorem holds_of_toDatum : ∀ {t : ElementType} {v : HostValue} {d : Datum},
    t.toDatum v = .ok d → t.Holds v d
  | .primitive p, v, d, h => holds_primitive h
  | .vector e, v, d, h => by
    cases v with
    | list items =>
      obtain ⟨ds, hds, h⟩ := bind_eq_ok h
      cases h
      exact ⟨items, ds, Or.inl rfl, rfl,
        (forall₂_of_mapM hds).imp fun _ _ => holds_of_toDatum⟩
    | tuple items =>
      obtain ⟨ds, hds, h⟩ := bind_eq_ok h
      cases h
      exact ⟨items, ds, Or.inr rfl, rfl,
        (forall₂_of_mapM hds).imp fun _ _ => holds_of_toDatum⟩
    | _ => cases h
  | .set e, v, d, h => by
    cases v with
    | set items =>
      obtain ⟨ds, hds, h⟩ := bind_eq_ok h
      cases h
      have hforall := forall₂_of_mapM hds
      refine ⟨items, _, rfl, rfl, fun x hx => ?_, fun y hy => ?_⟩
      · obtain ⟨y, hy, hxy⟩ := forall₂_mem_left hforall hx
        exact ⟨y, Ordered.mem_ofList.mpr hy, holds_of_toDatum hxy⟩
      · obtain ⟨x, hx, hxy⟩ := forall₂_mem_right hforall (Ordered.mem_of_mem_ofList hy)
        exact ⟨x, hx, holds_of_toDatum hxy⟩
    | _ => cases h
  | .map k t, v, d, h => by
    cases v with
    | dict entries =>
      obtain ⟨es, hes, h⟩ := bind_eq_ok h
      cases h
      have hforall := forall₂_of_mapM hes
      have hentry : ∀ {p : HostValue × HostValue} {e : Datum × Datum},
          Content.storeEntry k t p = .ok e → k.Holds p.1 e.1 ∧ t.Holds p.2 e.2 := by
        intro p e he
        obtain ⟨x, hx, he⟩ := bind_eq_ok he
        obtain ⟨y, hy, he⟩ := bind_eq_ok he
        cases he
        exact ⟨holds_of_toDatum hx, holds_of_toDatum hy⟩
      refine ⟨entries, _, rfl, rfl, fun p hp => ?_, fun e he => ?_⟩
      · obtain ⟨e, he, hpe⟩ := forall₂_mem_left hforall hp
        have hkey := Ordered.mem_ofList_keys.mpr (List.mem_map_of_mem (f := Prod.fst) he)
        obtain ⟨e', he', hfst⟩ := List.mem_map.mp hkey
        exact ⟨e', he', hfst ▸ (hentry hpe).1⟩
      · obtain ⟨p, hp, hpe⟩ := forall₂_mem_right hforall (Ordered.mem_of_mem_ofList he)
        exact ⟨p, hp, hentry hpe⟩
    | _ => cases h

/-! ## The domain of a conversion -/

/-- A conversion succeeds exactly on the values that have the structure of the type and
integers in range, and stores every integer as it is. It fails with the fault of the first
value at fault. -/
theorem conversion_exact (t : ElementType) (v : HostValue) :
    ((∃ d, t.toDatum v = .ok d) ↔ t.Describes v ∧ t.InRange v) ∧
      (∀ d, t.toDatum v = .ok d → t.Holds v d) ∧
      ∀ f, t.toDatum v = .error f ↔ t.FirstFault v f :=
  ⟨t.exists_toDatum_iff v, fun _ => holds_of_toDatum, fun _ => toDatum_eq_error_iff⟩

/-- Of two faults inside an entry the integer comes first, and before both the key. -/
theorem conversion_exact_nested :
    let t : ElementType := .map (.primitive .str) (.vector (.primitive .int32))
    let good : HostValue := .dict [(.str "a", .tuple [.int (-2147483648), .int 2147483647])]
    let bad : HostValue := .dict [(.str "a", .list [.int 2147483648, .none]), (.int 3, .none)]
    (t.Describes good ∧ t.InRange good) ∧
      (∃ d, t.toDatum good = .ok d ∧ t.Holds good d) ∧
      t.FirstFault bad (.outOfRange 2147483648 .int32) := by
  intro t good bad
  obtain ⟨d, hd⟩ : ∃ d, t.toDatum good = .ok d := ⟨_, rfl⟩
  obtain ⟨hdomain, hstored, -⟩ := conversion_exact t good
  exact ⟨hdomain.mp ⟨d, hd⟩, ⟨d, hd, hstored d hd⟩, ((conversion_exact t bad).2.2 _).mp rfl⟩

end ElementType

namespace Catalog

/-- What a primitive takes is what the built-in catalog accepts for it. -/
theorem accepts_primitive (p : Primitive) : builtin.accepts (.primitive p) = .ok p.takes := by
  cases p <;> rfl

/-- A value is accepted if its kind is taken: no host value is of the other kinds that the
catalog accepts for containers. -/
theorem acceptsValue_builtin (v : HostValue) (t : ElementType) :
    builtin.acceptsValue v t = .ok (t.takesKind v) := by
  cases t with
  | primitive p =>
    rw [acceptsValue, accepts_primitive]
    rfl
  | vector _ => cases v <;> rfl
  | set _ => cases v <;> rfl
  | map _ _ => cases v <;> rfl

/-- What is converted is accepted. -/
theorem accepted_of_toDatum {t : ElementType} {v : HostValue} {d : Datum}
    (h : t.toDatum v = .ok d) : builtin.acceptsValue v t = .ok true := by
  have hkinds := ElementType.describes_iff.mp ((t.exists_toDatum_iff v).mp ⟨d, h⟩).1
  obtain ⟨inside, hnodes⟩ := t.nodes_eq_cons v
  rw [hnodes] at hkinds
  rw [acceptsValue_builtin, (ElementType.kinded_cons.mp hkinds).1]

/-- What is not accepted is not converted. -/
theorem toDatum_of_rejected {t : ElementType} {v : HostValue}
    (h : builtin.acceptsValue v t = .ok false) : ∃ f, t.toDatum v = .error f := by
  cases hd : t.toDatum v with
  | error f => exact ⟨f, rfl⟩
  | ok d =>
    rw [accepted_of_toDatum hd] at h
    cases h

end Catalog

end WrapGen
