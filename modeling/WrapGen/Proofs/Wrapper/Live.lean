import WrapGen.Proofs.Conversion.Loaded
import WrapGen.Proofs.Value.Lookup
import WrapGen.Proofs.Wrapper.Liveness

/-!
# Operations on live containers

What the operations on a wrapper answer whose container is live and has a given
content (`Live`). The operations that take a key depend on what becomes of it
(`KeyFate`):

* `Live.contains`, `Live.remove`: a key without a storage form is no member, and
  its removal changes nothing.
* `Live.get_mistyped`, `Live.get_absent`, `Live.get_found`: the ends of a lookup.
* `Live.add`, `Live.put`: what an insertion that succeeds has checked and stored.
-/
namespace WrapGen

open Catalog

/-! ## Checks of kinds -/

theorem Catalog.check_of_accepted {v : HostValue} {t : ElementType} {role : String}
    (h : builtin.acceptsValue v t = .ok true) : builtin.check v t role = .ok () := by
  rw [check, h]
  rfl

/-- A value of a kind that is not accepted is named with the type in the words for people. -/
theorem Catalog.check_eq_wrongKind {v : HostValue} {t : ElementType} {human : String}
    (h : builtin.acceptsValue v t = .ok false) (hh : builtin.humanName t = .ok human)
    (role : String) : builtin.check v t role = .error (.wrongKind human role v.typeName) := by
  rw [check, h, hh]
  rfl

theorem Catalog.check_of_rejected {v : HostValue} {t : ElementType} (role : String)
    (h : builtin.acceptsValue v t = .ok false) :
    ∃ human, builtin.check v t role = .error (.wrongKind human role v.typeName) := by
  obtain ⟨human, hh⟩ := spell_builtin .human t
  exact ⟨human, check_eq_wrongKind h hh role⟩

theorem Catalog.accepted_of_check {c : Catalog} {v : HostValue} {t : ElementType} {role : String}
    (h : c.check v t role = .ok ()) : c.acceptsValue v t = .ok true := by
  unfold check at h
  cases hb : c.acceptsValue v t with
  | error e =>
    rw [hb] at h
    cases h
  | ok b =>
    cases b with
    | true => rfl
    | false =>
      rw [hb] at h
      have hthrow : (Fault.ofDescriptor (c.humanName t) >>= fun human =>
          throw (.wrongKind human role v.typeName)) = Except.ok () := h
      obtain ⟨human, -, h⟩ := bind_eq_ok hthrow
      cases h

/-- A key of an accepted kind may be looked up: what has no storage form equals no
item. -/
theorem Catalog.lookup_of_accepted {c : Catalog} {v : HostValue} {t : ElementType}
    (h : c.acceptsValue v t = .ok true) : ∃ k?, c.lookup v t = .ok k? := by
  unfold lookup
  rw [h]
  cases hv : t.toDatum v with
  | ok d => exact ⟨some d, rfl⟩
  | error f => cases ElementType.toDatum_fault hv <;> exact ⟨none, rfl⟩

/-! ## Contents of a type -/

theorem Datum.hasType_of_mem {k t : ElementType} : ∀ {entries : List (Datum × Datum)}
    {e : Datum × Datum}, hasTypeEntries entries k t = true → e ∈ entries →
    e.2.hasType t = true
  | (a, b) :: entries, e, h, hm => by
    rw [hasTypeEntries, Bool.and_eq_true, Bool.and_eq_true] at h
    rcases List.mem_cons.mp hm with rfl | hm
    · exact h.1.2
    · exact hasType_of_mem h.2 hm

/-- A value of a map is of its type. -/
theorem Content.hasType_of_get? {entries : List (Datum × Datum)} {k t : ElementType} {d y : Datum}
    (h : Datum.hasTypeEntries entries k t = true)
    (hy : (Content.map entries).get? d = some y) : y.hasType t = true := by
  obtain ⟨e, he, rfl⟩ := Option.map_eq_some_iff.mp hy
  exact Datum.hasType_of_mem h (List.mem_of_find?_eq_some he)

namespace Store

theorem refuse_ok {α : Type} {x : Except Fault α} {a : α} (h : refuse x = .ok a) : x = .ok a := by
  cases x with
  | ok b =>
    cases h
    rfl
  | error f => cases h

/-- What strict insertion checks holds once its check is passed. -/
theorem accepted_of_checkInsertion {c : Catalog} {w : Wrapper} {v : HostValue} {t : ElementType}
    {role : String} (h : checkInsertion c w v t role = .ok ()) (hs : w.insertion = .strict) :
    c.acceptsValue v t = .ok true := by
  unfold checkInsertion at h
  rw [hs] at h
  exact accepted_of_check (refuse_ok h)

theorem checkInsertion_ok {v : HostValue} {t : ElementType}
    (h : builtin.acceptsValue v t = .ok true) (w : Wrapper) (role : String) :
    checkInsertion builtin w v t role = .ok () := by
  unfold checkInsertion
  cases w.insertion with
  | permissive => rfl
  | strict =>
    show refuse (builtin.check v t role) = _
    rw [check_of_accepted h]
    rfl

/-! ## Steps -/

section
variable {c : Catalog} {s s' : Store} {op : Operation}

theorem step_of_run_ok {a : Answer} (h : s.run c op = .ok (s', a)) : s.step c op = (s', a) := by
  rw [step, h]

theorem step_of_run_error {r : Refusal} (h : s.run c op = .error r) :
    s.step c op = (s, .refused r) := by
  rw [step, h]

end

/-! ## Live containers -/

/-- A name is bound to a wrapper of a live container with a content of its type. -/
structure Live (s : Store) (id : String) (w : Wrapper) (content : Content) : Prop where
  bound : s.wrappers.lookup id = some w
  live : s.isLive w.storage = true
  holds : s.contents[w.storage]? = some content
  typed : content.datum.hasType w.type.elementType = true

variable {s : Store} {id : String} {w : Wrapper} {content : Content}

theorem Live.exists_items {e : ElementType} (h : Live s id w content) (ht : w.type = .set e) :
    ∃ items, content = .set items := by
  have htyped := h.typed
  rw [ht] at htyped
  cases content with
  | set items => exact ⟨items, rfl⟩
  | map entries => cases htyped

theorem Live.exists_entries {k t : ElementType} (h : Live s id w content)
    (ht : w.type = .map k t) : ∃ entries, content = .map entries ∧
      Datum.hasTypeEntries entries k t = true := by
  have htyped := h.typed
  rw [ht] at htyped
  cases content with
  | set items => cases htyped
  | map entries => exact ⟨entries, rfl, htyped⟩

theorem Live.content_bind (h : Live s id w content) {α : Type} {f : Content → Except Refusal α} :
    s.content w >>= f = f content := by
  rw [Store.content_bind h.live, contentAt, h.holds]
  rfl

theorem Live.holds_setContent (h : Live s id w content) (content' : Content) :
    (s.setContent w.storage content').contents[w.storage]? = some content' := by
  have hlt : w.storage < s.contents.length := (List.getElem?_eq_some_iff.mp h.holds).1
  exact List.getElem?_set_self hlt

theorem Live.setContent_self (h : Live s id w content) : s.setContent w.storage content = s := by
  obtain ⟨hlt, rfl⟩ := List.getElem?_eq_some_iff.mp h.holds
  rw [setContent, List.set_getElem_self]

/-- A container is as live with another content of its type. -/
theorem Live.setContent (h : Live s id w content) {content' : Content}
    (hc : content'.datum.hasType w.type.elementType = true) :
    Live (s.setContent w.storage content') id w content' :=
  ⟨h.bound, h.live, h.holds_setContent content', hc⟩

/-! ## Keys -/

section
variable {v : HostValue} {stored? : Option Datum}

/-- A key is a member if the content holds its storage form. -/
theorem Live.contains (h : Live s id w content) (hk : KeyFate w.type.keyType v stored?) :
    s.run builtin (.contains id v) = .ok (s, .flag (stored?.any content.contains)) := by
  rw [run, wrapper_bind h.bound, h.content_bind, hk.lookup]
  cases stored? <;> rfl

theorem Live.remove_missing (h : Live s id w content) (hk : KeyFate w.type.keyType v none) :
    s.remove builtin w v = .ok (s, .count content.size) := by
  rw [Store.remove, h.content_bind, hk.lookup]
  rfl

theorem Live.remove_stored (h : Live s id w content) {d : Datum}
    (hk : KeyFate w.type.keyType v (some d)) : s.remove builtin w v =
      .ok (s.setContent w.storage (content.erase d), .count (content.erase d).size) := by
  rw [Store.remove, h.content_bind, hk.lookup]
  rfl

/-- A removal leaves the content without the storage form of the key. -/
theorem Live.remove (h : Live s id w content) (hk : KeyFate w.type.keyType v stored?) :
    ∃ s' n, s.remove builtin w v = .ok (s', .count n) ∧
      s'.contents[w.storage]? = some (stored?.elim content content.erase) := by
  cases stored? with
  | none => exact ⟨_, _, h.remove_missing hk, h.holds⟩
  | some d => exact ⟨_, _, h.remove_stored hk, h.holds_setContent _⟩

/-- The removal of a key that is no member changes nothing. -/
theorem Live.remove_absent (h : Live s id w content) (hk : KeyFate w.type.keyType v stored?)
    (hnone : stored?.any content.contains = false) :
    s.remove builtin w v = .ok (s, .count content.size) := by
  cases stored? with
  | none => exact h.remove_missing hk
  | some d =>
    rw [h.remove_stored hk, Content.erase_of_not_contains hnone, h.setContent_self]

theorem Live.run_delete (h : Live s id w content) {k t : ElementType} (ht : w.type = .map k t) :
    s.run builtin (.delete id v) = s.remove builtin w v := by
  rw [run, mapWrapper_bind h.bound ht]

theorem Live.run_discard (h : Live s id w content) {e : ElementType} (ht : w.type = .set e) :
    s.run builtin (.discard id v) = s.remove builtin w v := by
  rw [run, setWrapper_bind h.bound ht]

end

/-! ## Lookup -/

section
variable {k t : ElementType} {v : HostValue} (h : Live s id w content) (ht : w.type = .map k t)
include h ht

/-- A lookup checks the key first and converts what it finds. -/
theorem Live.get {stored? : Option Datum} (hk : KeyFate k v stored?) :
    s.run builtin (.get id v) = (do
      refuse (builtin.check v k "keys")
      match stored?.bind content.get? with
      | none => throw (.fault (.absentKey v))
      | some y =>
        let x ← refuse (y.toHost t)
        return (s, .value x)) := by
  rw [run, mapWrapper_bind h.bound ht]
  dsimp only
  rw [h.content_bind, hk.lookup]
  rfl

theorem Live.get_mistyped (hb : builtin.acceptsValue v k = .ok false) :
    ∃ human, s.run builtin (.get id v) =
      .error (.fault (.wrongKind human "keys" v.typeName)) := by
  obtain ⟨human, hc⟩ := check_of_rejected "keys" hb
  refine ⟨human, ?_⟩
  rw [h.get ht (.mistyped hb), hc]
  rfl

theorem Live.get_absent (hb : builtin.acceptsValue v k = .ok true) {stored? : Option Datum}
    (hk : KeyFate k v stored?) (hnone : stored?.bind content.get? = none) :
    s.run builtin (.get id v) = .error (.fault (.absentKey v)) := by
  rw [h.get ht hk, check_of_accepted hb, hnone]
  rfl

theorem Live.get_found (hb : builtin.acceptsValue v k = .ok true) {d y : Datum} {x : HostValue}
    (hk : KeyFate k v (some d)) (hsome : content.get? d = some y) (hx : y.toHost t = .ok x) :
    s.run builtin (.get id v) = .ok (s, .value x) := by
  rw [h.get ht hk, check_of_accepted hb, Option.bind_some, hsome]
  show (refuse (y.toHost t) >>= fun x => pure (s, Answer.value x)) = _
  rw [hx]
  rfl

end

/-! ## Insertion -/

section
variable {e : ElementType} (h : Live s id w content) (ht : w.type = .set e) {v : HostValue}
include h ht

/-- An insertion into a set checks the value and converts it. -/
theorem Live.run_add : s.run builtin (.add id v) = (do
    checkInsertion builtin w v e "values"
    let x ← refuse (e.toDatum v)
    return (s.setContent w.storage (content.add x), .count (content.add x).size)) := by
  rw [run, setWrapper_bind h.bound ht]
  dsimp only
  rw [h.content_bind]

/-- An insertion into a set that succeeds has converted the value, after the check
of strict insertion. -/
theorem Live.add {s' : Store} {a : Answer} (hr : s.run builtin (.add id v) = .ok (s', a)) :
    ∃ x, e.toDatum v = .ok x ∧ (w.insertion = .strict → builtin.acceptsValue v e = .ok true) ∧
      s'.contents[w.storage]? = some (content.add x) := by
  rw [h.run_add ht] at hr
  obtain ⟨⟨⟩, hc, hr⟩ := bind_eq_ok hr
  obtain ⟨x, hx, hr⟩ := bind_eq_ok hr
  cases hr
  exact ⟨x, refuse_ok hx, accepted_of_checkInsertion hc, h.holds_setContent _⟩

end

section
variable {k t : ElementType} (h : Live s id w content) (ht : w.type = .map k t)
  {key v : HostValue}
include h ht

/-- An assignment checks the key and the value and then converts them. -/
theorem Live.run_put : s.run builtin (.put id key v) = (do
    checkInsertion builtin w key k "keys"
    checkInsertion builtin w v t "values"
    let x ← refuse (k.toDatum key)
    let y ← refuse (t.toDatum v)
    return (s.setContent w.storage (content.put x y), .count (content.put x y).size)) := by
  rw [run, mapWrapper_bind h.bound ht]
  dsimp only
  rw [h.content_bind]

/-- An assignment that succeeds has converted the key and the value, after the
checks of strict insertion. -/
theorem Live.put {s' : Store} {a : Answer} (hr : s.run builtin (.put id key v) = .ok (s', a)) :
    ∃ x y, k.toDatum key = .ok x ∧ t.toDatum v = .ok y ∧
      (w.insertion = .strict →
        builtin.acceptsValue key k = .ok true ∧ builtin.acceptsValue v t = .ok true) ∧
      s'.contents[w.storage]? = some (content.put x y) := by
  rw [h.run_put ht] at hr
  obtain ⟨⟨⟩, hck, hr⟩ := bind_eq_ok hr
  obtain ⟨⟨⟩, hcv, hr⟩ := bind_eq_ok hr
  obtain ⟨x, hx, hr⟩ := bind_eq_ok hr
  obtain ⟨y, hy, hr⟩ := bind_eq_ok hr
  cases hr
  exact ⟨x, y, refuse_ok hx, refuse_ok hy,
    fun hs => ⟨accepted_of_checkInsertion hck hs, accepted_of_checkInsertion hcv hs⟩,
    h.holds_setContent _⟩

end

end Store

end WrapGen
