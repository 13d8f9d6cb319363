import WrapGen.Catalog.Builtin
import WrapGen.Proofs.Value.Faults
import WrapGen.Proofs.Wrapper.Invariant

/-!
# When storage counts as released

An operation that uses the container of a wrapper looks at its liveness before
anything else can fail, and nothing else fails in this way. So it is refused for
released storage exactly if the container is dead (`run_released_iff`), and a
container is dead exactly if no bound name owns it and no iterator of it is
bound.

* `released_iff_unheld`: this, after any operations from the empty store.
* `dead_after`: a container that is dead stays dead.
-/
namespace WrapGen

/-- The operation uses the container that the wrapper `id` of the type `t` has. -/
def Operation.Touches (id : String) (t : WrappedType) : Operation → Prop
  | .contains i _ | .size i | .isEmpty i | .toHost i | .iterate i _ => i = id
  | .add i _ | .discard i _ => i = id ∧ ∃ e, t = .set e
  | .get i _ | .put i _ _ | .delete i _ => i = id ∧ ∃ k v, t = .map k v
  | .create _ type _ (.alias source _) => source = id ∧ type = t
  | _ => False

namespace Store

variable {c : Catalog} {s : Store} {id : String} {w : Wrapper}

/-! ## Refusals that are none for released storage -/

theorem refuse_ne_released {α : Type} {x : Except Fault α}
    (h : ∀ f, x = .error f → f.OfConversion) : refuse x ≠ .error (.fault .released) := by
  intro hx
  cases x with
  | ok a => cases hx
  | error f =>
    have hf : f = .released := by
      cases hx
      rfl
    exact (h f rfl).ne_released hf

theorem checkInsertion_ne_released {v : HostValue} {t : ElementType} {role : String} :
    checkInsertion c w v t role ≠ .error (.fault .released) := by
  unfold checkInsertion
  split
  · intro h
    cases h
  · exact refuse_ne_released fun _ => Catalog.check_fault

/-- Two steps that are not refused for released storage are not so together. -/
theorem bind_ne_released {α β : Type} {x : Except Refusal α} {f : α → Except Refusal β}
    (hx : x ≠ .error (.fault .released)) (hf : ∀ a, f a ≠ .error (.fault .released)) :
    x >>= f ≠ .error (.fault .released) := by
  intro h
  rcases bind_eq_error h with h | ⟨a, -, h⟩
  · exact hx h
  · exact hf a h

theorem ok_ne_released {α : Type} (a : α) :
    (.ok a : Except Refusal α) ≠ .error (.fault .released) := by
  intro h
  cases h

/-! ## Liveness decides -/

section
variable {α : Type} (hw : s.wrappers.lookup id = some w)
include hw

theorem wrapper_bind {f : Wrapper → Except Refusal α} : s.wrapper id >>= f = f w := by
  unfold wrapper
  rw [hw]
  rfl

theorem setWrapper_bind {e : ElementType} (ht : w.type = .set e)
    {f : Wrapper × ElementType → Except Refusal α} : s.setWrapper id >>= f = f (w, e) := by
  unfold setWrapper
  rw [wrapper_bind hw, ht]
  rfl

theorem mapWrapper_bind {k t : ElementType} (ht : w.type = .map k t)
    {f : Wrapper × ElementType × ElementType → Except Refusal α} :
    s.mapWrapper id >>= f = f (w, k, t) := by
  unfold mapWrapper
  rw [wrapper_bind hw, ht]
  rfl

theorem setWrapper_of_map {k t : ElementType} (ht : w.type = .map k t) :
    s.setWrapper id = .error .unbound := by
  unfold setWrapper
  rw [wrapper_bind hw, ht]
  rfl

theorem mapWrapper_of_set {e : ElementType} (ht : w.type = .set e) :
    s.mapWrapper id = .error .unbound := by
  unfold mapWrapper
  rw [wrapper_bind hw, ht]
  rfl

end

theorem checked_of_isKey {t : WrappedType} (hk : t.keyType.isKey = true) :
    refuseType t.checked = .ok t := by
  unfold WrappedType.checked
  rw [ElementType.asKey_of_isKey hk]
  rfl

theorem content_of_live (hl : s.isLive w.storage = true) :
    s.content w = .ok (s.contentAt w.storage) := if_pos hl

theorem content_bind {α : Type} {f : Content → Except Refusal α}
    (hl : s.isLive w.storage = true) : s.content w >>= f = f (s.contentAt w.storage) := by
  rw [content_of_live hl]
  rfl

theorem content_of_dead (hl : s.isLive w.storage = false) :
    s.content w = .error (.fault .released) := by
  unfold content
  rw [hl]
  rfl

/-- After the liveness of the container nothing is refused for released storage. -/
theorem content_bind_released_iff {α : Type} {f : Content → Except Refusal α}
    (hf : ∀ content, f content ≠ .error (.fault .released)) :
    s.content w >>= f = .error (.fault .released) ↔ s.isLive w.storage = false := by
  cases hl : s.isLive w.storage with
  | true =>
    rw [content_of_live hl]
    constructor
    · exact fun h => absurd h (hf _)
    · intro h
      cases h
  | false =>
    rw [content_of_dead hl]
    exact ⟨fun _ => rfl, fun _ => rfl⟩

theorem remove_released_iff {key : HostValue} :
    s.remove c w key = .error (.fault .released) ↔ s.isLive w.storage = false := by
  refine content_bind_released_iff fun content => ?_
  refine bind_ne_released (refuse_ne_released fun _ => Catalog.lookup_fault) fun k? => ?_
  cases k? <;> exact ok_ne_released _

theorem sameKind_self (t : WrappedType) : t.sameKind t = true := by
  cases t <;> rfl

theorem build_alias {insertion : Insertion} {owns : Option Bool}
    (hw : s.wrappers.lookup id = some w) (hk : w.type.keyType.isKey = true) :
    s.build c w.type insertion (.alias id owns) =
      s.content w >>= fun _ => .ok (⟨w.type, insertion, w.storage, owns == some true⟩, s) := by
  rw [build, wrapper_bind hw]
  dsimp only
  rw [if_pos (sameKind_self w.type), checked_of_isKey hk]
  show (if w.type ≠ w.type then _ else _) = _
  rw [if_neg (not_not.mpr rfl)]
  rfl

/-- An alias of a matching type is refused for released storage exactly if its
source is dead. -/
theorem create_released_iff {new : String} {insertion : Insertion} {owns : Option Bool}
    (hw : s.wrappers.lookup id = some w) (hk : w.type.keyType.isKey = true) :
    s.run c (.create new w.type insertion (.alias id owns)) = .error (.fault .released) ↔
      s.isLive w.storage = false := by
  rw [run, build_alias hw hk, bind_assoc]
  exact content_bind_released_iff fun content => ok_ne_released _

/-- An operation that uses a container is refused for released storage exactly
if the container is dead. -/
theorem run_released_iff {op : Operation} (hw : s.wrappers.lookup id = some w)
    (hk : w.type.keyType.isKey = true) (ht : op.Touches id w.type) :
    s.run c op = .error (.fault .released) ↔ s.isLive w.storage = false := by
  cases op with
  | create new type insertion origin =>
    cases origin with
    | empty => exact ht.elim
    | host v => exact ht.elim
    | «alias» source owns =>
      obtain ⟨rfl, rfl⟩ := ht
      exact create_released_iff hw hk
  | drop i => exact ht.elim
  | dropIterator i => exact ht.elim
  | owns i => exact ht.elim
  | next i => exact ht.elim
  | contains i key =>
    obtain rfl : i = id := ht
    rw [run, wrapper_bind hw]
    refine content_bind_released_iff fun content => ?_
    refine bind_ne_released (refuse_ne_released fun _ => Catalog.lookup_fault) fun k? => ?_
    cases k? <;> exact ok_ne_released _
  | size i =>
    obtain rfl : i = id := ht
    rw [run, wrapper_bind hw]
    exact content_bind_released_iff fun content => ok_ne_released _
  | isEmpty i =>
    obtain rfl : i = id := ht
    rw [run, wrapper_bind hw]
    exact content_bind_released_iff fun content => ok_ne_released _
  | toHost i =>
    obtain rfl : i = id := ht
    rw [run, wrapper_bind hw]
    refine content_bind_released_iff fun content => ?_
    refine bind_ne_released (refuse_ne_released fun _ h => ?_) fun v => ok_ne_released _
    exact .value (Datum.toHost_fault h)
  | iterate i iterator =>
    obtain rfl : i = id := ht
    rw [run, wrapper_bind hw]
    exact content_bind_released_iff fun content => ok_ne_released _
  | add i value =>
    obtain ⟨rfl, e, he⟩ := ht
    rw [run, setWrapper_bind hw he]
    refine content_bind_released_iff fun content => ?_
    refine bind_ne_released checkInsertion_ne_released fun _ => ?_
    refine bind_ne_released (refuse_ne_released fun _ h => ?_) fun x => ok_ne_released _
    exact .value (ElementType.toDatum_fault h)
  | discard i value =>
    obtain ⟨rfl, e, he⟩ := ht
    rw [run, setWrapper_bind hw he]
    exact remove_released_iff
  | get i key =>
    obtain ⟨rfl, k, v, he⟩ := ht
    rw [run, mapWrapper_bind hw he]
    refine content_bind_released_iff fun content => ?_
    refine bind_ne_released (refuse_ne_released fun _ => Catalog.check_fault) fun _ => ?_
    refine bind_ne_released (refuse_ne_released fun _ => Catalog.lookup_fault) fun k? => ?_
    split
    · intro h
      cases h
    · refine bind_ne_released (refuse_ne_released fun _ h => ?_) fun v => ok_ne_released _
      exact .value (Datum.toHost_fault h)
  | put i key value =>
    obtain ⟨rfl, k, v, he⟩ := ht
    rw [run, mapWrapper_bind hw he]
    refine content_bind_released_iff fun content => ?_
    refine bind_ne_released checkInsertion_ne_released fun _ => ?_
    refine bind_ne_released checkInsertion_ne_released fun _ => ?_
    refine bind_ne_released (refuse_ne_released fun _ h => ?_) fun x => ?_
    · exact .value (ElementType.toDatum_fault h)
    · refine bind_ne_released (refuse_ne_released fun _ h => ?_) fun y => ok_ne_released _
      exact .value (ElementType.toDatum_fault h)
  | delete i key =>
    obtain ⟨rfl, k, v, he⟩ := ht
    rw [run, mapWrapper_bind hw he]
    exact remove_released_iff

/-! ## Every run -/

/-- The container of a wrapper is dead exactly if the wrapper does not own it, no
other bound wrapper does, and no iterator of it is bound. -/
theorem Named.dead_iff (h : s.Named) (hw : s.wrappers.lookup id = some w) :
    s.isLive w.storage = false ↔ w.owns = false ∧
      (∀ i v, s.wrappers.lookup i = some v → v.storage = w.storage → v.owns = false) ∧
      ∀ i cursor, s.cursors.lookup i = some cursor → cursor.storage ≠ w.storage := by
  rw [← Bool.not_eq_true, h.isLive_iff]
  constructor
  · intro hd
    have hall : ∀ i v, s.wrappers.lookup i = some v → v.storage = w.storage → v.owns = false := by
      intro i v hv hs
      by_contra ho
      exact hd (Or.inl ⟨i, v, hv, by simpa using ho, hs⟩)
    exact ⟨hall id w hw rfl, hall, fun i cursor hc hs => hd (Or.inr ⟨i, cursor, hc, hs⟩)⟩
  · rintro ⟨-, hw', hc'⟩ (⟨i, v, hv, ho, hs⟩ | ⟨i, cursor, hc, hs⟩)
    · rw [hw' i v hv hs] at ho
      cases ho
    · exact hc' i cursor hc hs

/-- After any operations, one that uses the container of a bound wrapper is
refused for released storage exactly if the wrapper is no owner, no owner of the
same container is bound, and no iterator of it, exhausted or not. -/
theorem released_iff_unheld (c : Catalog) (ops : List Operation) (id : String) (w : Wrapper)
    (op : Operation) (hw : (empty.after c ops).wrappers.lookup id = some w)
    (ht : op.Touches id w.type) :
    (empty.after c ops).run c op = .error (.fault .released) ↔ w.owns = false ∧
      (∀ i v, (empty.after c ops).wrappers.lookup i = some v → v.storage = w.storage →
        v.owns = false) ∧
      ∀ i cursor, (empty.after c ops).cursors.lookup i = some cursor →
        cursor.storage ≠ w.storage := by
  obtain ⟨types, hty⟩ := typing_after c ops
  have hk : w.type.keyType.isKey = true :=
    hty.keys _ (List.mem_of_getElem? (hty.lookup hw))
  rw [run_released_iff hw hk ht, (named_after c ops).dead_iff hw]

/-- An alias whose owner was dropped, with and without an iterator that holds on. -/
theorem released_iff_unheld_alias :
    let start : List Operation :=
      [.create "s" (.set (.primitive .int32)) .permissive .empty,
       .create "a" (.set (.primitive .int32)) .permissive (.alias "s" none)]
    (empty.after .builtin (start ++ [.drop "s"])).run .builtin (.size "a") =
        .error (.fault .released) ∧
      (empty.after .builtin (start ++ [.iterate "a" "i", .drop "s"])).run .builtin (.size "a") ≠
        .error (.fault .released) := by
  intro start
  let w : Wrapper := ⟨.set (.primitive .int32), .permissive, 0, false⟩
  constructor
  · refine (released_iff_unheld .builtin _ "a" w (.size "a") rfl rfl).mpr ⟨rfl, ?_, ?_⟩
    · intro i v hv _
      have hm : (i, v) ∈ [("a", w)] := mem_of_lookup hv
      cases List.mem_singleton.mp hm
      rfl
    · intro i cursor hc
      cases hc
  · intro h
    obtain ⟨-, -, hc⟩ := (released_iff_unheld .builtin _ "a" w (.size "a") rfl rfl).mp h
    exact hc "i" ⟨.primitive .int32, 0, .start⟩ rfl rfl

/-! ## The dead stay dead -/

theorem isLive_eq_false_iff {n : Nat} : s.isLive n = false ↔
    (∀ row ∈ s.wrappers, row.2.owns = true → row.2.storage ≠ n) ∧
      ∀ row ∈ s.cursors, row.2.storage ≠ n := by
  unfold isLive
  simp only [Bool.or_eq_false_iff, List.any_eq_false, Bool.and_eq_true, beq_iff_eq, not_and]

theorem dead_effect {s' : Store} {op : Operation} {n : Nat} (hn : n < s.contents.length)
    (hd : s.isLive n = false) (he : s.Effect op s') :
    n < s'.contents.length ∧ s'.isLive n = false := by
  have hlive : ∀ {m}, s.isLive m = true → m ≠ n := by
    rintro m hl rfl
    rw [hd] at hl
    cases hl
  obtain ⟨hw, hc⟩ := isLive_eq_false_iff.mp hd
  cases he with
  | same => exact ⟨hn, hd⟩
  | fresh id w content hs ho hk hcontent =>
    refine ⟨by simp only [List.length_append]; omega, isLive_eq_false_iff.mpr ⟨?_, hc⟩⟩
    intro row hrow ho'
    rcases mem_rebind hrow with rfl | hrow
    · show w.storage ≠ n
      omega
    · exact hw row hrow ho'
  | shared id source v w hv hl hs ht hk =>
    refine ⟨hn, isLive_eq_false_iff.mpr ⟨?_, hc⟩⟩
    intro row hrow ho'
    rcases mem_rebind hrow with rfl | hrow
    · show w.storage ≠ n
      rw [hs]
      exact hlive hl
    · exact hw row hrow ho'
  | dropped id =>
    exact ⟨hn, isLive_eq_false_iff.mpr ⟨fun row hrow => hw row (mem_unbind hrow), hc⟩⟩
  | closed iterator =>
    exact ⟨hn, isLive_eq_false_iff.mpr ⟨hw, fun row hrow => hc row (mem_unbind hrow)⟩⟩
  | erased id w k => exact ⟨by rwa [setContent, List.length_set], hd⟩
  | added id w e v x => exact ⟨by rwa [setContent, List.length_set], hd⟩
  | put id w k t key value x y => exact ⟨by rwa [setContent, List.length_set], hd⟩
  | opened id iterator w hid hl =>
    refine ⟨hn, isLive_eq_false_iff.mpr ⟨hw, ?_⟩⟩
    intro row hrow
    rcases mem_rebind hrow with rfl | hrow
    · exact hlive hl
    · exact hc row hrow
  | moved iterator cursor p hcursor =>
    refine ⟨hn, isLive_eq_false_iff.mpr ⟨hw, ?_⟩⟩
    intro row hrow
    rcases mem_rebind hrow with rfl | hrow
    · exact hc (iterator, cursor) (mem_of_lookup hcursor)
    · exact hc row hrow

/-- A container that is dead stays dead, whatever operations follow. -/
theorem dead_after (c : Catalog) {n : Nat} : ∀ (ops : List Operation) {s : Store},
    n < s.contents.length → s.isLive n = false → (s.after c ops).isLive n = false
  | [], _, _, hd => hd
  | op :: ops, s, hn, hd => by
    obtain ⟨hn', hd'⟩ := dead_effect hn hd (step_effect c s op)
    exact dead_after c ops hn' hd'

end Store

end WrapGen
