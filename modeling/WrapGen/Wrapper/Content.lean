import WrapGen.Catalog.Resolve
import WrapGen.Value.Conversion
/-!
# Contents of containers

The content of a wrapped container is a set of data or a map between data, in
order. Both have keys, which is all that membership, counting, removal and
iteration look at. A content is filled from a host collection: a set from a
list, a tuple or a set, a map from a dict or from a sequence of pairs, whose
shape is checked before any of them is converted.
-/
namespace WrapGen

/-- The type of a wrapped container. -/
inductive WrappedType where
  | set (element : ElementType)
  | map (key value : ElementType)
  deriving DecidableEq, Repr

namespace WrappedType

/-- The type of the keys. -/
def keyType : WrappedType → ElementType
  | set e => e
  | map k _ => k

/-- The container as an element type. -/
def elementType : WrappedType → ElementType
  | set e => .set e
  | map k v => .map k v

/-- The type itself, if its keys are ordered primitives. -/
def checked (t : WrappedType) : Except DescriptorError WrappedType := do
  let _ ← t.keyType.asKey
  return t

/-- Whether two types are both of sets or both of maps. -/
def sameKind : WrappedType → WrappedType → Bool
  | set _, set _ | map _ _, map _ _ => true
  | _, _ => false

end WrappedType

/-- The content of a container. -/
inductive Content where
  | set (items : List Datum)
  | map (entries : List (Datum × Datum))

namespace Content

/-- The content of an empty container. -/
def empty : WrappedType → Content
  | .set _ => set []
  | .map _ _ => map []

/-- The keys, in order. -/
def keys : Content → List Datum
  | set items => items
  | map entries => entries.map Prod.fst

/-- Whether a key is there. -/
def contains (c : Content) (k : Datum) : Bool := Ordered.contains id k c.keys

/-- The number of keys. -/
def size (c : Content) : Nat := c.keys.length

/-- The content without a key. -/
def erase (c : Content) (k : Datum) : Content :=
  match c with
  | set items => set (Ordered.erase id k items)
  | map entries => map (Ordered.erase Prod.fst k entries)

/-- The content with an item added to a set. -/
def add (c : Content) (x : Datum) : Content :=
  match c with
  | set items => set (Ordered.insert id x items)
  | map entries => map entries

/-- The content with an entry of a map inserted or replaced. -/
def put (c : Content) (k v : Datum) : Content :=
  match c with
  | set items => set items
  | map entries => map (Ordered.insert Prod.fst (k, v) entries)

/-- The value under a key of a map. -/
def get? (c : Content) (k : Datum) : Option Datum :=
  match c with
  | set _ => none
  | map entries => (Ordered.find? Prod.fst k entries).map Prod.snd

/-- The content as one datum. -/
def datum : Content → Datum
  | set items => .set items
  | map entries => .map entries

/-! ## From host values -/

/-- The fault of a value that is no collection for a container. -/
def malformed (v : HostValue) (t : WrappedType) : Fault :=
  .inconvertible v.typeName t.elementType.headToken

/-- The two values of a pair. -/
def pair? : HostValue → Option (HostValue × HostValue)
  | .tuple [k, v] | .list [k, v] => some (k, v)
  | _ => none

/-- The pairs of a sequence, if all of its items are pairs. -/
def pairs (t : WrappedType) (items : List HostValue) :
    Except Fault (List (HostValue × HostValue)) :=
  items.mapM fun item =>
    match pair? item with
    | some p => .ok p
    | none => .error (malformed item t)

/-- The entries of a host mapping or of a sequence of pairs. -/
def entriesOf (t : WrappedType) (v : HostValue) : Except Fault (List (HostValue × HostValue)) :=
  match v with
  | .dict entries => .ok entries
  | .list items | .tuple items => pairs t items
  | v => .error (malformed v t)

/-- The items of a host collection. -/
def itemsOf (t : WrappedType) (v : HostValue) : Except Fault (List HostValue) :=
  match v with
  | .list items | .tuple items | .set items => .ok items
  | v => .error (malformed v t)

/-- An entry converted, its key first. -/
def storeEntry (k v : ElementType) (entry : HostValue × HostValue) :
    Except Fault (Datum × Datum) := do
  let key ← k.toDatum entry.1
  let value ← v.toDatum entry.2
  return (key, value)

/-- The content that a host collection gives. -/
def ofHost (t : WrappedType) (v : HostValue) : Except Fault Content :=
  match t with
  | .set e => do
    let items ← itemsOf t v
    return set (Ordered.ofList id (← items.mapM e.toDatum))
  | .map k e => do
    let entries ← entriesOf t v
    return map (Ordered.ofList Prod.fst (← entries.mapM (storeEntry k e)))

end Content

end WrapGen
