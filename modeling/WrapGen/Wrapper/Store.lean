import WrapGen.Bundle.Basic
import WrapGen.Wrapper.Content
/-!
# Wrappers, owners and iterators

A store holds the contents of containers, wrappers and iterators under names.
A wrapper either owns its container or is an alias of it; an iterator holds its
container as an owner does. A container is live while an owner or an iterator of
it is bound. Every operation on the content of a dead container fails.

`step` runs one operation. An operation that fails leaves the store as it was.
-/
namespace WrapGen

/-- A wrapper of a container. -/
structure Wrapper where
  type : WrappedType
  insertion : Insertion
  /-- The number of the container. -/
  storage : Nat
  owns : Bool

/-- How far an iterator has come. -/
inductive Position where
  | start
  | after (key : Datum)
  | done

/-- An iterator over the keys of a container. -/
structure Cursor where
  /-- The type of the keys. -/
  item : ElementType
  /-- The number of the container. -/
  storage : Nat
  position : Position

/-- Contents by number, and wrappers and iterators by name. -/
structure Store where
  contents : List Content
  wrappers : List (String × Wrapper)
  cursors : List (String × Cursor)

/-- Why an operation does nothing. -/
inductive Refusal where
  /-- A name is not bound, or to a wrapper of another kind. -/
  | unbound
  | fault (f : Fault)

/-- What a new wrapper starts from. -/
inductive Origin where
  | empty
  /-- A copy of a host collection. -/
  | host (v : HostValue)
  /-- The container of another wrapper, owned only if the flag says so. -/
  | alias (source : String) (owns : Option Bool)

/-- The operations on a store. -/
inductive Operation where
  | create (id : String) (type : WrappedType) (insertion : Insertion) (origin : Origin)
  | drop (id : String)
  | dropIterator (id : String)
  | contains (id : String) (key : HostValue)
  | size (id : String)
  | isEmpty (id : String)
  | owns (id : String)
  | toHost (id : String)
  | add (id : String) (value : HostValue)
  | discard (id : String) (value : HostValue)
  | get (id : String) (key : HostValue)
  | put (id : String) (key value : HostValue)
  | delete (id : String) (key : HostValue)
  | iterate (id iterator : String)
  | next (iterator : String)

/-- What an operation answers. -/
inductive Answer where
  | refused (r : Refusal)
  | created (type : WrappedType) (owns : Bool)
  | flag (b : Bool)
  | count (n : Nat)
  | value (v : HostValue)
  | done
  | exhausted

/-! ## Tables -/

/-- The table without the name `id`. -/
def unbind {α : Type} (id : String) (table : List (String × α)) : List (String × α) :=
  table.filter fun row => row.1 != id

/-- The table with `id` bound to `x`. -/
def rebind {α : Type} (id : String) (x : α) (table : List (String × α)) : List (String × α) :=
  (id, x) :: unbind id table

namespace Store

/-- The store without anything. -/
def empty : Store := ⟨[], [], []⟩

/-- The wrapper that a name is bound to. -/
def wrapper (s : Store) (id : String) : Except Refusal Wrapper :=
  match s.wrappers.lookup id with
  | some w => .ok w
  | none => .error .unbound

/-- The set wrapper that a name is bound to, and the type of its elements. -/
def setWrapper (s : Store) (id : String) : Except Refusal (Wrapper × ElementType) := do
  let w ← s.wrapper id
  match w.type with
  | .set e => return (w, e)
  | .map _ _ => throw .unbound

/-- The map wrapper that a name is bound to, and the types of its entries. -/
def mapWrapper (s : Store) (id : String) :
    Except Refusal (Wrapper × ElementType × ElementType) := do
  let w ← s.wrapper id
  match w.type with
  | .map k v => return (w, k, v)
  | .set _ => throw .unbound

/-- Whether an owner or an iterator of a container is bound. -/
def isLive (s : Store) (storage : Nat) : Bool :=
  (s.wrappers.any fun row => row.2.owns && row.2.storage == storage) ||
    s.cursors.any fun row => row.2.storage == storage

/-- The content of a container by its number. -/
def contentAt (s : Store) (storage : Nat) : Content :=
  s.contents[storage]?.getD (.set [])

/-- The content of the container of a wrapper, if it is live. -/
def content (s : Store) (w : Wrapper) : Except Refusal Content :=
  if s.isLive w.storage then .ok (s.contentAt w.storage) else .error (.fault .released)

/-- The store with another content in a container. -/
def setContent (s : Store) (storage : Nat) (c : Content) : Store :=
  { s with contents := s.contents.set storage c }

/-- A fault as a refusal. -/
def refuse {α : Type} (x : Except Fault α) : Except Refusal α := x.mapError .fault

/-- The fault of a type as a refusal. -/
def refuseType {α : Type} (x : Except DescriptorError α) : Except Refusal α :=
  refuse (Fault.ofDescriptor x)

/-! ## Creation -/

/-- The wrapper that an origin gives, and the store with its container. -/
def build (c : Catalog) (s : Store) (type : WrappedType) (insertion : Insertion) :
    Origin → Except Refusal (Wrapper × Store)
  | .empty => do
    let type ← refuseType type.checked
    return (⟨type, insertion, s.contents.length, true⟩,
      { s with contents := s.contents ++ [Content.empty type] })
  | .host v => do
    let type ← refuseType type.checked
    let content ← refuse (Content.ofHost type v)
    return (⟨type, insertion, s.contents.length, true⟩,
      { s with contents := s.contents ++ [content] })
  | .alias source owns => do
    let w ← s.wrapper source
    unless w.type.sameKind type do
      throw .unbound
    let type ← refuseType type.checked
    if w.type ≠ type then
      let human ← refuseType (c.humanName type.elementType)
      throw (.fault (.wrongKind human "aliases" type.elementType.headToken))
    let _ ← s.content w
    return (⟨type, insertion, w.storage, owns == some true⟩, s)

/-! ## Operations -/

/-- The checks that strict insertion makes first. -/
def checkInsertion (c : Catalog) (w : Wrapper) (v : HostValue) (t : ElementType) (role : String) :
    Except Refusal Unit :=
  match w.insertion with
  | .permissive => .ok ()
  | .strict => refuse (c.check v t role)

/-- Removes a key from the container of a wrapper. -/
def remove (c : Catalog) (s : Store) (w : Wrapper) (key : HostValue) :
    Except Refusal (Store × Answer) := do
  let content ← s.content w
  match ← refuse (c.lookup key w.type.keyType) with
  | none => return (s, .count content.size)
  | some k =>
    let content := content.erase k
    return (s.setContent w.storage content, .count content.size)

/-- Runs an operation that may be refused. -/
def run (c : Catalog) (s : Store) : Operation → Except Refusal (Store × Answer)
  | .create id type insertion origin => do
    let (w, s) ← s.build c type insertion origin
    return ({ s with wrappers := rebind id w s.wrappers }, .created w.type w.owns)
  | .drop id =>
    .ok ({ s with wrappers := unbind id s.wrappers }, .flag (s.wrappers.lookup id).isSome)
  | .dropIterator id =>
    .ok ({ s with cursors := unbind id s.cursors }, .flag (s.cursors.lookup id).isSome)
  | .contains id key => do
    let w ← s.wrapper id
    let content ← s.content w
    match ← refuse (c.lookup key w.type.keyType) with
    | none => return (s, .flag false)
    | some k => return (s, .flag (content.contains k))
  | .size id => do
    let w ← s.wrapper id
    let content ← s.content w
    return (s, .count content.size)
  | .isEmpty id => do
    let w ← s.wrapper id
    let content ← s.content w
    return (s, .flag (content.size == 0))
  | .owns id => do
    let w ← s.wrapper id
    return (s, .flag w.owns)
  | .toHost id => do
    let w ← s.wrapper id
    let content ← s.content w
    let v ← refuse (content.datum.toHost w.type.elementType)
    return (s, .value v)
  | .add id value => do
    let (w, e) ← s.setWrapper id
    let content ← s.content w
    checkInsertion c w value e "values"
    let x ← refuse (e.toDatum value)
    let content := content.add x
    return (s.setContent w.storage content, .count content.size)
  | .discard id value => do
    let (w, _) ← s.setWrapper id
    s.remove c w value
  | .get id key => do
    let (w, k, v) ← s.mapWrapper id
    let content ← s.content w
    refuse (c.check key k "keys")
    match (← refuse (c.lookup key k)).bind content.get? with
    | none => throw (.fault (.absentKey key))
    | some d =>
      let found ← refuse (d.toHost v)
      return (s, .value found)
  | .put id key value => do
    let (w, k, v) ← s.mapWrapper id
    let content ← s.content w
    checkInsertion c w key k "keys"
    checkInsertion c w value v "values"
    let x ← refuse (k.toDatum key)
    let y ← refuse (v.toDatum value)
    let content := content.put x y
    return (s.setContent w.storage content, .count content.size)
  | .delete id key => do
    let (w, _) ← s.mapWrapper id
    s.remove c w key
  | .iterate id iterator => do
    let w ← s.wrapper id
    let _ ← s.content w
    let cursor := ⟨w.type.keyType, w.storage, .start⟩
    return ({ s with cursors := rebind iterator cursor s.cursors }, .done)
  | .next iterator =>
    match s.cursors.lookup iterator with
    | none => .error .unbound
    | some cursor =>
      let move (p : Position) : Store :=
        { s with cursors := rebind iterator { cursor with position := p } s.cursors }
      let advance (last : Option Datum) : Except Refusal (Store × Answer) :=
        match Ordered.firstAfter id last (s.contentAt cursor.storage).keys with
        | none => .ok (move .done, .exhausted)
        | some key => do
          let v ← refuse (key.toHost cursor.item)
          return (move (.after key), .value v)
      match cursor.position with
      | .start => advance none
      | .after key => advance (some key)
      | .done => .ok (s, .exhausted)

/-- Runs an operation; one that is refused leaves the store as it was. -/
def step (c : Catalog) (s : Store) (op : Operation) : Store × Answer :=
  match s.run c op with
  | .ok result => result
  | .error r => (s, .refused r)

end Store

end WrapGen
