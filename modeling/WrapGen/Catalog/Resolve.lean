import WrapGen.Catalog.Basic
import WrapGen.Descriptor.Parser
/-!
# Resolving descriptors

A descriptor names an element type of a catalog when its tokens and heads are
known, every head has as many arguments as its container takes, the nesting is
bounded, and set elements and map keys are ordered primitives. The first fault
is the answer: of an application its head, then the number of its arguments,
then the depth, then the arguments from left to right, then its key.
-/
namespace WrapGen

/-- The type itself if it may be a set element or a map key. -/
def ElementType.asKey (t : ElementType) : Except DescriptorError ElementType :=
  if t.isKey then .ok t else .error (.unorderedKey t)

theorem ElementType.asKey_of_isKey {t : ElementType} (h : t.isKey = true) : t.asKey = .ok t :=
  if_pos h

theorem ElementType.asKey_eq_ok {t k : ElementType} (h : t.asKey = .ok k) :
    k = t ∧ t.isKey = true := by
  unfold asKey at h
  split at h
  · rename_i hkey
    cases h
    exact ⟨rfl, hkey⟩
  · cases h

namespace Catalog

/-- The type that a token names. -/
def resolveToken (c : Catalog) (token : String) : Except DescriptorError ElementType :=
  match c.primitive? token, c.container? token with
  | some p, _ => .ok (.primitive p)
  | none, some container => .error (.arity token container.arity 0)
  | none, none => .error (.unknownType token)

/-- The container that a head applied to `found` arguments names. -/
def resolveHead (c : Catalog) (head : String) (found : Nat) : Except DescriptorError Container :=
  match c.container? head with
  | some container =>
    if found = container.arity then .ok container
    else .error (.arity head container.arity found)
  | none =>
    if (c.primitive? head).isSome then .error (.arity head 0 found)
    else .error (.unknownType head)

theorem resolveToken_of_primitive {c : Catalog} {s : String} {p : Primitive}
    (h : c.primitive? s = some p) : c.resolveToken s = .ok (.primitive p) := by
  rw [resolveToken, h]

/-- A head that names a container is at fault only in the number of its arguments. -/
theorem resolveHead_of_container {c : Catalog} {h : String} {q : Container}
    (hq : c.container? h = some q) (found : Nat) : c.resolveHead h found =
      if found = q.arity then .ok q else .error (.arity h q.arity found) := by
  rw [resolveHead, hq]

/-- The type that a descriptor inside `depth` applications names. -/
def resolveAt (c : Catalog) (depth : Nat) : Descriptor → Except DescriptorError ElementType
  | .token t => c.resolveToken t
  | .applied head args =>
    match c.resolveHead head args.length with
    | .error e => .error e
    | .ok container =>
      if depth = Descriptor.maxNesting then .error (.malformed head .tooDeep)
      else
        match container, args with
        | .vector, [e] => do
          let element ← c.resolveAt (depth + 1) e
          return .vector element
        | .set, [e] => do
          let element ← c.resolveAt (depth + 1) e
          let element ← element.asKey
          return .set element
        | .map, [k, v] => do
          let key ← c.resolveAt (depth + 1) k
          let value ← c.resolveAt (depth + 1) v
          let key ← key.asKey
          return .map key value
        | container, args => .error (.arity head container.arity args.length)
termination_by structural d => d

/-- The type that a descriptor names. -/
def resolve (c : Catalog) (d : Descriptor) : Except DescriptorError ElementType :=
  c.resolveAt 0 d

/-- The type that a text names. -/
def resolveText (c : Catalog) (text : String) : Except DescriptorError ElementType := do
  c.resolve (← Descriptor.parse text)

end Catalog

end WrapGen
