import WrapGen.Binary.Rounding
import WrapGen.Catalog.Spelling
import WrapGen.Value.Fault
import WrapGen.Value.Ordered
/-!
# Conversion of values

Host values become data of a type and back. A primitive takes the host kinds it
has a form for: an integer must fit its storage and is never changed, a float
takes integers too, rounded once, and a complex number takes all three. Composites
convert item by item, and of a map the key of every entry before its value. The
first fault from left to right is the answer.

`accepts` is the check of the outermost kind that a catalog asks for. `lookup` is
the conversion of a key to look for: what has no storage form equals no item.
-/
namespace WrapGen

open Binary

/-- The kind of integers that a primitive stores. -/
def Primitive.integerKind? : Primitive → Option IntegerKind
  | .int32 => some .int32
  | .uint32 => some .uint32
  | .int64 => some .int64
  | .uint64 => some .uint64
  | _ => none

/-- A value converted to a primitive. -/
def Primitive.toDatum (p : Primitive) (v : HostValue) : Except Fault Datum :=
  match p, v with
  | .str, .str s => .ok (.str s)
  | .float32, .float x => .ok (.float32 (Double.narrow x))
  | .float32, .int n => .ok (.float32 (Word.ofInt n))
  | .float64, .float x => .ok (.float64 x)
  | .float64, .int n => .ok (.float64 (Word.ofInt n))
  | .complex128, .complex re im => .ok (.complex re im)
  | .complex128, .float x => .ok (.complex x Word.zero)
  | .complex128, .int n => .ok (.complex (Word.ofInt n) Word.zero)
  | p, .int n =>
    match p.integerKind? with
    | some k =>
      match k.ofInt? n with
      | some r => .ok (.integer k r)
      | none => .error (.outOfRange n p)
    | none => .error (.inconvertible v.typeName p.token)
  | p, v => .error (.inconvertible v.typeName p.token)

namespace ElementType

/-- A host value converted to a type. -/
def toDatum : ElementType → HostValue → Except Fault Datum
  | .primitive p, v => p.toDatum v
  | .vector e, v =>
    match v with
    | .list items | .tuple items => do return .vector (← items.mapM (toDatum e))
    | v => .error (.inconvertible v.typeName (vector e).headToken)
  | .set e, v =>
    match v with
    | .set items => do return .set (Ordered.ofList id (← items.mapM (toDatum e)))
    | v => .error (.inconvertible v.typeName (set e).headToken)
  | .map k t, v =>
    match v with
    | .dict entries => do
      let stored ← entries.mapM fun entry => do
        let key ← toDatum k entry.1
        let value ← toDatum t entry.2
        return (key, value)
      return .map (Ordered.ofList Prod.fst stored)
    | v => .error (.inconvertible v.typeName (map k t).headToken)

end ElementType

namespace Datum

/-- How a datum without a form at a type is named in faults. -/
def typeName : String := "storage value"

mutual

/-- A datum converted to a host value; composites need a type of their kind. -/
def toHost : Datum → ElementType → Except Fault HostValue
  | .str s, _ => .ok (.str s)
  | .integer _ n, _ => .ok (.int n.val)
  | .float32 x, _ => .ok (.float (Single.widen x))
  | .float64 x, _ => .ok (.float x)
  | .complex re im, _ => .ok (.complex re im)
  | .vector items, .vector e => do return .list (← toHostAll items e)
  | .set items, .set e => do return .set (← toHostAll items e)
  | .map entries, .map k v => do return .dict (← toHostEntries entries k v)
  | _, t => .error (.inconvertible typeName t.headToken)
termination_by structural d => d

/-- Items converted one by one. -/
def toHostAll : List Datum → ElementType → Except Fault (List HostValue)
  | [], _ => .ok []
  | d :: ds, t => do
    let v ← toHost d t
    let vs ← toHostAll ds t
    return v :: vs
termination_by structural ds => ds

/-- Entries converted one by one. -/
def toHostEntries : List (Datum × Datum) → ElementType → ElementType →
    Except Fault (List (HostValue × HostValue))
  | [], _, _ => .ok []
  | (k, v) :: es, kt, vt => do
    let key ← toHost k kt
    let value ← toHost v vt
    let rest ← toHostEntries es kt vt
    return (key, value) :: rest
termination_by structural es => es

end

end Datum

namespace Catalog

/-- Whether the kind of a value is accepted for a type. -/
def acceptsValue (c : Catalog) (v : HostValue) (t : ElementType) : Except DescriptorError Bool := do
  let kinds ← c.accepts t
  return v.kind?.any kinds.contains

/-- Fails unless the kind of a value is accepted for a type. -/
def check (c : Catalog) (v : HostValue) (t : ElementType) (role : String) : Except Fault Unit := do
  if ← Fault.ofDescriptor (c.acceptsValue v t) then
    return ()
  else
    let human ← Fault.ofDescriptor (c.humanName t)
    throw (.wrongKind human role v.typeName)

/-- The storage form of a key to look for, if it can equal an item. -/
def lookup (c : Catalog) (v : HostValue) (t : ElementType) : Except Fault (Option Datum) := do
  if ← Fault.ofDescriptor (c.acceptsValue v t) then
    match t.toDatum v with
    | .ok d => return some d
    | .error (.outOfRange _ _) => return none
    | .error (.inconvertible _ _) => return none
    | .error e => throw e
  else
    return none

end Catalog

end WrapGen
