import WrapGen.Proofs.Results
import WrapGen.Value.Conversion

/-!
# The faults of conversions

A conversion into storage fails for a value of the wrong form or for an integer
that does not fit, and a conversion out of storage for a datum of the wrong form
only. Checks and lookups of keys add the faults of kinds and of types. None of
them says that storage was released: only the liveness of a container does.

* `toDatum_fault`, `toHost_fault`, `check_fault`, `lookup_fault`.
-/
namespace WrapGen

/-- The faults of values: of the wrong form, or out of range. -/
inductive Fault.OfValue : Fault → Prop
  | inconvertible (found target : String) : OfValue (.inconvertible found target)
  | outOfRange (n : Int) (p : Primitive) : OfValue (.outOfRange n p)

/-- The faults of conversions and checks. -/
inductive Fault.OfConversion : Fault → Prop
  | value {f : Fault} (h : f.OfValue) : OfConversion f
  | kind (expected role found : String) : OfConversion (.wrongKind expected role found)
  | type (e : DescriptorError) : OfConversion (.descriptor e)

theorem Fault.OfConversion.ne_released {f : Fault} (h : f.OfConversion) : f ≠ .released := by
  rintro rfl
  cases h with
  | value h => cases h

theorem Primitive.toDatum_fault {p : Primitive} {v : HostValue} {f : Fault}
    (h : p.toDatum v = .error f) : f.OfValue := by
  unfold Primitive.toDatum at h
  split at h
  · cases h
  · cases h
  · cases h
  · cases h
  · cases h
  · cases h
  · cases h
  · cases h
  · split at h
    · split at h
      · cases h
      · cases h
        exact .outOfRange _ _
    · cases h
      exact .inconvertible _ _
  · cases h
    exact .inconvertible _ _

theorem ElementType.toDatum_fault : ∀ {t : ElementType} {v : HostValue} {f : Fault},
    t.toDatum v = .error f → f.OfValue
  | .primitive p, v, f, h => by
    rw [toDatum] at h
    exact p.toDatum_fault h
  | .vector e, v, f, h => by
    have hitems : ∀ {items : List HostValue},
        (do return Datum.vector (← items.mapM (toDatum e))) = Except.error f → f.OfValue := by
      intro items h
      rcases bind_eq_error h with h | ⟨ds, -, h⟩
      · obtain ⟨x, -, hx⟩ := mapM_eq_error h
        exact toDatum_fault hx
      · cases h
    cases v with
    | list items => exact hitems h
    | tuple items => exact hitems h
    | _ =>
      cases h
      exact .inconvertible _ _
  | .set e, v, f, h => by
    cases v with
    | set items =>
      rcases bind_eq_error h with h | ⟨ds, -, h⟩
      · obtain ⟨x, -, hx⟩ := mapM_eq_error h
        exact toDatum_fault hx
      · cases h
    | _ =>
      cases h
      exact .inconvertible _ _
  | .map k t, v, f, h => by
    cases v with
    | dict entries =>
      rcases bind_eq_error h with h | ⟨ds, -, h⟩
      · obtain ⟨x, -, hx⟩ := mapM_eq_error h
        rcases bind_eq_error hx with hk | ⟨d, -, hx⟩
        · exact toDatum_fault hk
        · rcases bind_eq_error hx with hv | ⟨d', -, hx⟩
          · exact toDatum_fault hv
          · cases hx
      · cases h
    | _ =>
      cases h
      exact .inconvertible _ _

namespace Datum

mutual

theorem toHost_fault : ∀ {d : Datum} {t : ElementType} {f : Fault},
    d.toHost t = .error f → f.OfValue
  | .str _, _, _, h | .integer _ _, _, _, h | .float32 _, _, _, h | .float64 _, _, _, h
  | .complex _ _, _, _, h => by cases h
  | .vector items, .vector e, f, h => by
    rcases bind_eq_error h with h | ⟨vs, -, h⟩
    · exact toHostAll_fault h
    · cases h
  | .set items, .set e, f, h => by
    rcases bind_eq_error h with h | ⟨vs, -, h⟩
    · exact toHostAll_fault h
    · cases h
  | .map entries, .map k v, f, h => by
    rcases bind_eq_error h with h | ⟨vs, -, h⟩
    · exact toHostEntries_fault h
    · cases h
  | .vector _, .primitive _, f, h | .vector _, .set _, f, h | .vector _, .map _ _, f, h
  | .set _, .primitive _, f, h | .set _, .vector _, f, h | .set _, .map _ _, f, h
  | .map _, .primitive _, f, h | .map _, .vector _, f, h | .map _, .set _, f, h => by
    cases h
    exact .inconvertible _ _

theorem toHostAll_fault : ∀ {items : List Datum} {e : ElementType} {f : Fault},
    toHostAll items e = .error f → f.OfValue
  | [], _, _, h => by cases h
  | d :: ds, e, f, h => by
    rcases bind_eq_error h with h | ⟨v, -, h⟩
    · exact toHost_fault h
    · rcases bind_eq_error h with h | ⟨vs, -, h⟩
      · exact toHostAll_fault h
      · cases h

theorem toHostEntries_fault : ∀ {entries : List (Datum × Datum)} {k v : ElementType} {f : Fault},
    toHostEntries entries k v = .error f → f.OfValue
  | [], _, _, _, h => by cases h
  | (a, b) :: es, k, v, f, h => by
    rcases bind_eq_error h with h | ⟨x, -, h⟩
    · exact toHost_fault h
    · rcases bind_eq_error h with h | ⟨y, -, h⟩
      · exact toHost_fault h
      · rcases bind_eq_error h with h | ⟨rest, -, h⟩
        · exact toHostEntries_fault h
        · cases h

end

end Datum

namespace Catalog

variable {c : Catalog} {v : HostValue} {t : ElementType} {f : Fault}

theorem ofDescriptor_fault {α : Type} {x : Except DescriptorError α}
    (h : Fault.ofDescriptor x = .error f) : f.OfConversion := by
  cases x with
  | error e =>
    cases h
    exact .type e
  | ok a => cases h

theorem check_fault {role : String} (h : c.check v t role = .error f) : f.OfConversion := by
  rcases bind_eq_error h with h | ⟨b, -, h⟩
  · exact ofDescriptor_fault h
  · split at h
    · cases h
    · rcases bind_eq_error h with h | ⟨human, -, h⟩
      · exact ofDescriptor_fault h
      · cases h
        exact .kind _ _ _

theorem lookup_fault (h : c.lookup v t = .error f) : f.OfConversion := by
  rcases bind_eq_error h with h | ⟨b, -, h⟩
  · exact ofDescriptor_fault h
  · split at h
    · split at h
      · cases h
      · cases h
      · cases h
      · rename_i e _ _ he
        cases h
        exact .value (ElementType.toDatum_fault he)
    · cases h

end Catalog

end WrapGen
