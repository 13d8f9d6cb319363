import WrapGen.Proofs.Conversion.Domain
import WrapGen.Proofs.Wrapper.Atomicity
import WrapGen.Proofs.Wrapper.Live

/-!
# What strict insertion changes

A wrapper with strict insertion checks the kinds of what is inserted before it converts
them. Since everything that is converted is of an accepted kind, the check refuses only
what the conversion would refuse (`Catalog.accepted_of_toDatum`).

A store is compared with the store whose wrappers check nothing (`Store.unchecked`).

* `run_unchecked`: an operation does the same in both, or one of its arguments is rejected
  and it fails in both.
* `after_unchecked`: no run of operations leaves other contents for the checks.
* `strictness_changes_faults_only`: one wrapper with strict and with permissive insertion.
-/
namespace WrapGen

open Catalog

/-! ## Insertions -/

/-- The wrapper with another insertion. -/
def Wrapper.inserting (w : Wrapper) (i : Insertion) : Wrapper := { w with insertion := i }

theorem Wrapper.inserting_type (w : Wrapper) (i : Insertion) : (w.inserting i).type = w.type := rfl

namespace Operation

/-- The operation, with nothing checked by the wrapper that it creates. -/
def unchecked : Operation → Operation
  | .create id type _ origin => .create id type .permissive origin
  | op => op

/-- A value to be inserted, the type that it is converted to, and its role in faults. -/
structure Inserted where
  value : HostValue
  type : ElementType
  role : String

/-- What an operation inserts into a container of a type, in the order of the checks. -/
def inserted : Operation → WrappedType → List Inserted
  | .add _ v, .set e => [⟨v, e, "values"⟩]
  | .put _ key v, .map k t => [⟨key, k, "keys"⟩, ⟨v, t, "values"⟩]
  | _, _ => []

end Operation

namespace Store

/-- The store with each wrapper replaced, according to its name. -/
def mapWrappers (s : Store) (f : String → Wrapper → Wrapper) : Store :=
  { s with wrappers := s.wrappers.map fun row => (row.1, f row.1 row.2) }

/-- The store with nothing checked by its wrappers. -/
def unchecked (s : Store) : Store := s.mapWrappers fun _ w => w.inserting .permissive

/-- The store with another insertion in the wrapper that a name is bound to. -/
def inserting (s : Store) (id : String) (i : Insertion) : Store :=
  s.mapWrappers fun name w => if name = id then w.inserting i else w

/-- A refusal of an operation on a wrapper that checks the kinds of what it inserts: one of
them is not accepted. -/
def Rejects (s : Store) (op : Operation) (r : Refusal) : Prop :=
  ∃ id w, op.subject? = some id ∧ s.wrappers.lookup id = some w ∧ w.insertion = .strict ∧
    ∃ x ∈ op.inserted w.type, builtin.acceptsValue x.value x.type = .ok false ∧
      ∃ human, builtin.humanName x.type = .ok human ∧
        r = .fault (.wrongKind human x.role x.value.typeName)

end Store

/-! ## Tables -/

section
variable {α β : Type} (f : String → α → β) (id : String)

theorem lookup_map_rows : ∀ table : List (String × α),
    (table.map fun row => (row.1, f row.1 row.2)).lookup id = (table.lookup id).map (f id)
  | [] => rfl
  | (name, x) :: rest => by
    rw [List.map_cons, List.lookup_cons, List.lookup_cons, lookup_map_rows rest]
    by_cases h : id = name
    · subst h
      simp only [beq_self_eq_true, Option.map_some]
    · simp only [beq_eq_false_iff_ne.mpr h]

theorem unbind_map_rows (table : List (String × α)) :
    unbind id (table.map fun row => (row.1, f row.1 row.2)) =
      (unbind id table).map fun row => (row.1, f row.1 row.2) := List.filter_map

end

namespace Store

variable {c : Catalog} {s : Store} {id : String} {w : Wrapper}

/-! ## The store without checks -/

theorem contentAt_unchecked (n : Nat) : s.unchecked.contentAt n = s.contentAt n := rfl

theorem cursors_unchecked : s.unchecked.cursors = s.cursors := rfl

theorem lookup_unchecked : s.unchecked.wrappers.lookup id =
    (s.wrappers.lookup id).map (·.inserting .permissive) :=
  lookup_map_rows (fun _ (w : Wrapper) => w.inserting .permissive) id s.wrappers

theorem isLive_unchecked (n : Nat) : s.unchecked.isLive n = s.isLive n := by
  unfold isLive
  congr 1
  exact List.any_map

theorem content_unchecked (w : Wrapper) :
    s.unchecked.content (w.inserting .permissive) = s.content w := by
  unfold content
  rw [isLive_unchecked]
  rfl

theorem rebind_unchecked (id : String) (w : Wrapper) :
    { s with wrappers := rebind id w s.wrappers }.unchecked =
      { s.unchecked with
        wrappers := rebind id (w.inserting .permissive) s.unchecked.wrappers } := by
  unfold unchecked mapWrappers rebind
  rw [unbind_map_rows fun _ (w : Wrapper) => w.inserting .permissive]
  rfl

theorem unbind_unchecked (id : String) :
    { s with wrappers := unbind id s.wrappers }.unchecked =
      { s.unchecked with wrappers := unbind id s.unchecked.wrappers } := by
  unfold unchecked mapWrappers
  rw [unbind_map_rows fun _ (w : Wrapper) => w.inserting .permissive]

/-- What an operation gives, with the checks of the store forgotten. -/
def forget (x : Except Refusal (Store × Answer)) : Except Refusal (Store × Answer) :=
  x.map fun result => (result.1.unchecked, result.2)

/-! ## Runs with and without checks -/

/-- The second run is the first without checks, or both fail and a check refused the first. -/
inductive Tracks (rejected : Refusal → Prop) :
    Except Refusal (Store × Answer) → Except Refusal (Store × Answer) → Prop
  | same (x : Except Refusal (Store × Answer)) : Tracks rejected x (forget x)
  | refused {r r' : Refusal} (h : rejected r) : Tracks rejected (.error r) (.error r')

section
variable {rejected : Refusal → Prop} {x y : Except Refusal (Store × Answer)} {α : Type}

theorem Tracks.of_ok (h : Tracks rejected x y) {s : Store} {a : Answer} (hx : x = .ok (s, a)) :
    y = .ok (s.unchecked, a) := by
  cases h with
  | same =>
    rw [hx]
    rfl
  | refused _ => cases hx

theorem Tracks.of_error (h : Tracks rejected x y) {r : Refusal} (hx : x = .error r) :
    rejected r ∨ y = .error r := by
  cases h with
  | same =>
    rw [hx]
    exact Or.inr rfl
  | refused hr =>
    cases hx
    exact Or.inl hr

/-- The checks do not decide whether a run succeeds. -/
theorem Tracks.exists_ok_iff (h : Tracks rejected x y) :
    (∃ result, x = .ok result) ↔ ∃ result, y = .ok result := by
  cases h with
  | same =>
    cases x with
    | ok result => exact iff_of_true ⟨result, rfl⟩ ⟨_, rfl⟩
    | error r => exact iff_of_false (by rintro ⟨_, ⟨⟩⟩) (by rintro ⟨_, ⟨⟩⟩)
  | refused _ => exact iff_of_false (by rintro ⟨_, ⟨⟩⟩) (by rintro ⟨_, ⟨⟩⟩)

theorem bind_tracks {x : Except Refusal α} {f g : α → Except Refusal (Store × Answer)}
    (h : ∀ a, Tracks rejected (f a) (g a)) : Tracks rejected (x >>= f) (x >>= g) := by
  cases x with
  | error r => exact .same (.error r)
  | ok a => exact h a

theorem ok_tracks (s : Store) (a : Answer) :
    Tracks rejected (.ok (s, a)) (.ok (s.unchecked, a)) := .same (.ok (s, a))

theorem wrapper_tracks {f g : Wrapper → Except Refusal (Store × Answer)}
    (h : ∀ w, s.wrappers.lookup id = some w → Tracks rejected (f w) (g (w.inserting .permissive))) :
    Tracks rejected (s.wrapper id >>= f) (s.unchecked.wrapper id >>= g) := by
  unfold wrapper
  rw [lookup_unchecked]
  cases hw : s.wrappers.lookup id with
  | none => exact .same (.error .unbound)
  | some w => exact h w hw

theorem setWrapper_tracks {f g : Wrapper × ElementType → Except Refusal (Store × Answer)}
    (h : ∀ w e, s.wrappers.lookup id = some w → w.type = .set e →
      Tracks rejected (f (w, e)) (g (w.inserting .permissive, e))) :
    Tracks rejected (s.setWrapper id >>= f) (s.unchecked.setWrapper id >>= g) := by
  unfold setWrapper
  rw [bind_assoc, bind_assoc]
  refine wrapper_tracks fun w hw => ?_
  rw [w.inserting_type]
  cases ht : w.type with
  | set e => exact h w e hw ht
  | map _ _ => exact .same (.error .unbound)

theorem mapWrapper_tracks
    {f g : Wrapper × ElementType × ElementType → Except Refusal (Store × Answer)}
    (h : ∀ w k t, s.wrappers.lookup id = some w → w.type = .map k t →
      Tracks rejected (f (w, k, t)) (g (w.inserting .permissive, k, t))) :
    Tracks rejected (s.mapWrapper id >>= f) (s.unchecked.mapWrapper id >>= g) := by
  unfold mapWrapper
  rw [bind_assoc, bind_assoc]
  refine wrapper_tracks fun w hw => ?_
  rw [w.inserting_type]
  cases ht : w.type with
  | set _ => exact .same (.error .unbound)
  | map k t => exact h w k t hw ht

theorem content_tracks {w : Wrapper} {f g : Content → Except Refusal (Store × Answer)}
    (h : ∀ content, Tracks rejected (f content) (g content)) :
    Tracks rejected (s.content w >>= f)
      (s.unchecked.content (w.inserting .permissive) >>= g) := by
  rw [content_unchecked]
  exact bind_tracks h

/-! ## Operations that insert nothing -/

theorem remove_tracks (w : Wrapper) (key : HostValue) :
    Tracks rejected (s.remove c w key)
      (s.unchecked.remove c (w.inserting .permissive) key) := by
  refine content_tracks fun content => bind_tracks fun k? => ?_
  cases k? with
  | none => exact ok_tracks s _
  | some k => exact ok_tracks (s.setContent w.storage _) _

/-- A wrapper with nothing to check is created where the other is, of the same container. -/
theorem build_unchecked (type : WrappedType) (insertion : Insertion) (origin : Origin) :
    s.unchecked.build c type .permissive origin =
      (s.build c type insertion origin).map fun built =>
        (built.1.inserting .permissive, built.2.unchecked) := by
  cases origin with
  | empty =>
    unfold build
    cases refuseType type.checked <;> rfl
  | host v =>
    unfold build
    cases refuseType type.checked with
    | error r => rfl
    | ok type =>
      show (refuse (Content.ofHost type v) >>= _) = Except.map _ (refuse _ >>= _)
      cases refuse (Content.ofHost type v) <;> rfl
  | «alias» source owns =>
    rw [build, build, wrapper, wrapper, lookup_unchecked]
    cases s.wrappers.lookup source with
    | none => rfl
    | some w =>
      show (if w.type.sameKind type = true then _ else _) =
        Except.map _ (if w.type.sameKind type = true then _ else _)
      split
      · cases refuseType type.checked with
        | error r => rfl
        | ok checked =>
          show (if w.type ≠ checked then _ else _) =
            Except.map _ (if w.type ≠ checked then _ else _)
          split
          · cases refuseType (c.humanName checked.elementType) <;> rfl
          · show (s.unchecked.content (w.inserting .permissive) >>= _) =
              Except.map _ (s.content w >>= _)
            rw [content_unchecked]
            cases s.content w <;> rfl
      · rfl

theorem create_tracks (type : WrappedType) (insertion : Insertion) (origin : Origin) :
    Tracks rejected (s.run c (.create id type insertion origin))
      (s.unchecked.run c (.create id type .permissive origin)) := by
  rw [run, run, build_unchecked type insertion]
  cases s.build c type insertion origin with
  | error r => exact .same (.error r)
  | ok built =>
    show Tracks rejected (.ok (_, .created built.1.type built.1.owns))
      (.ok ({ built.2.unchecked with wrappers := _ }, _))
    have hsame := rebind_unchecked (s := built.2) id built.1
    exact hsame ▸ ok_tracks _ _

theorem advanced_tracks (iterator : String) (cursor : Cursor) (last : Option Datum) :
    Tracks rejected (s.advanced iterator cursor last)
      (s.unchecked.advanced iterator cursor last) := by
  unfold advanced
  rw [contentAt_unchecked]
  cases Ordered.firstAfter id last (s.contentAt cursor.storage).keys with
  | none => exact ok_tracks (s.moveTo iterator cursor .done) _
  | some key => exact bind_tracks fun v => ok_tracks (s.moveTo iterator cursor (.after key)) _

theorem next_tracks (iterator : String) :
    Tracks rejected (s.run c (.next iterator)) (s.unchecked.run c (.next iterator)) := by
  rw [run, run, cursors_unchecked]
  cases s.cursors.lookup iterator with
  | none => exact .same (.error .unbound)
  | some cursor =>
    dsimp only
    cases cursor.position with
    | start => exact advanced_tracks iterator cursor none
    | after key => exact advanced_tracks iterator cursor (some key)
    | done => exact ok_tracks s .exhausted

end

/-! ## Insertions -/

/-- What is not accepted cannot be inserted without a check either. -/
theorem insertion_of_rejected {α : Type} {v : HostValue} {t : ElementType}
    (h : builtin.acceptsValue v t = .ok false) (f : Datum → Except Refusal α) :
    ∃ r, refuse (t.toDatum v) >>= f = .error r := by
  obtain ⟨fault, hfault⟩ := toDatum_of_rejected h
  exact ⟨.fault fault, by rw [hfault]; rfl⟩

/-- The check before an insertion is passed, or it rejects the kind of the value. -/
theorem check_tracks {rejected : Refusal → Prop} {v : HostValue} {t : ElementType} {role : String}
    {f g : Unit → Except Refusal (Store × Answer)} (hpassed : Tracks rejected (f ()) (g ()))
    (hrejected : w.insertion = .strict → builtin.acceptsValue v t = .ok false →
      (∀ human, builtin.humanName t = .ok human →
        rejected (.fault (.wrongKind human role v.typeName))) ∧ ∃ r, g () = .error r) :
    Tracks rejected (checkInsertion builtin w v t role >>= f)
      (checkInsertion builtin (w.inserting .permissive) v t role >>= g) := by
  show Tracks rejected _ (g ())
  cases hb : t.takesKind v with
  | true =>
    rw [checkInsertion_ok (by rw [acceptsValue_builtin, hb]) w role]
    exact hpassed
  | false =>
    unfold checkInsertion
    cases hs : w.insertion with
    | permissive => exact hpassed
    | strict =>
      have hb' : builtin.acceptsValue v t = .ok false := by rw [acceptsValue_builtin, hb]
      obtain ⟨human, hh⟩ := spell_builtin .human t
      obtain ⟨hr, r, hfails⟩ := hrejected hs hb'
      dsimp only
      rw [check_eq_wrongKind hb' hh, hfails]
      exact .refused (hr human hh)

theorem add_tracks (v : HostValue) : Tracks (s.Rejects (.add id v)) (s.run builtin (.add id v))
    (s.unchecked.run builtin (.add id v)) := by
  rw [run, run]
  refine setWrapper_tracks fun w e hw ht => content_tracks fun content => check_tracks ?_ ?_
  · exact bind_tracks fun x => ok_tracks (s.setContent w.storage _) _
  · intro hs hb
    refine ⟨fun human hh => ?_, insertion_of_rejected hb _⟩
    exact ⟨id, w, rfl, hw, hs, ⟨v, e, "values"⟩, by rw [ht]; exact List.mem_singleton_self _, hb,
      human, hh, rfl⟩

theorem put_tracks (key v : HostValue) : Tracks (s.Rejects (.put id key v))
    (s.run builtin (.put id key v)) (s.unchecked.run builtin (.put id key v)) := by
  rw [run, run]
  refine mapWrapper_tracks fun w k t hw ht => content_tracks fun content => ?_
  have hinserted : (Operation.put id key v).inserted w.type =
      [⟨key, k, "keys"⟩, ⟨v, t, "values"⟩] := by rw [ht]; rfl
  refine check_tracks (check_tracks ?_ ?_) ?_
  · exact bind_tracks fun x => bind_tracks fun y => ok_tracks (s.setContent w.storage _) _
  · intro hs hb
    -- Without checks the key is converted first, and that may fail before the value does.
    refine ⟨fun human hh => ?_, exists_bind_eq_error fun _ _ => insertion_of_rejected hb _⟩
    exact ⟨id, w, rfl, hw, hs, ⟨v, t, "values"⟩, by simp [hinserted], hb, human, hh, rfl⟩
  · intro hs hb
    refine ⟨fun human hh => ?_, exists_bind_eq_error fun _ _ => insertion_of_rejected hb _⟩
    exact ⟨id, w, rfl, hw, hs, ⟨key, k, "keys"⟩, by simp [hinserted], hb, human, hh, rfl⟩

/-! ## Every operation -/

/-- An operation does the same without checks, or one of its arguments is rejected by a
check, and it fails without checks too. -/
theorem run_unchecked (s : Store) (op : Operation) : Tracks (s.Rejects op) (s.run builtin op)
    (s.unchecked.run builtin op.unchecked) := by
  cases op with
  | create id type insertion origin => exact create_tracks type insertion origin
  | drop id =>
    show Tracks _ (.ok (_, .flag (s.wrappers.lookup id).isSome))
      (.ok ({ s.unchecked with wrappers := _ }, .flag (s.unchecked.wrappers.lookup id).isSome))
    rw [lookup_unchecked, Option.isSome_map, ← unbind_unchecked]
    exact ok_tracks { s with wrappers := unbind id s.wrappers } _
  | dropIterator id => exact ok_tracks { s with cursors := unbind id s.cursors } _
  | contains id key =>
    refine wrapper_tracks fun w _ => content_tracks fun content => bind_tracks fun k? => ?_
    cases k? with
    | none => exact ok_tracks s _
    | some k => exact ok_tracks s _
  | size id => exact wrapper_tracks fun w _ => content_tracks fun content => ok_tracks s _
  | isEmpty id => exact wrapper_tracks fun w _ => content_tracks fun content => ok_tracks s _
  | owns id => exact wrapper_tracks fun w _ => ok_tracks s _
  | toHost id =>
    exact wrapper_tracks fun w _ => content_tracks fun content => bind_tracks fun v => ok_tracks s _
  | add id v => exact add_tracks v
  | discard id v => exact setWrapper_tracks fun w e _ _ => remove_tracks w v
  | get id key =>
    refine mapWrapper_tracks fun w k t _ _ => content_tracks fun content => ?_
    refine bind_tracks fun _ => bind_tracks fun k? => ?_
    cases k?.bind content.get? with
    | none => exact .same (.error (.fault (.absentKey key)))
    | some d => exact bind_tracks fun v => ok_tracks s _
  | put id key v => exact put_tracks key v
  | delete id key => exact mapWrapper_tracks fun w k t _ _ => remove_tracks w key
  | iterate id iterator =>
    refine wrapper_tracks fun w _ => content_tracks fun content => ?_
    exact ok_tracks { s with
      cursors := rebind iterator ⟨w.type.keyType, w.storage, .start⟩ s.cursors } _
  | next iterator => exact next_tracks iterator

theorem step_unchecked (s : Store) (op : Operation) :
    (s.step builtin op).1.unchecked = (s.unchecked.step builtin op.unchecked).1 := by
  have htracks := run_unchecked s op
  unfold step
  generalize s.run builtin op = x at htracks ⊢
  generalize s.unchecked.run builtin op.unchecked = y at htracks ⊢
  cases htracks with
  | same x => cases x <;> rfl
  | refused h => rfl

/-- After any operations the containers hold what they would hold without checks. -/
theorem after_unchecked : ∀ (ops : List Operation) (s : Store),
    (s.after builtin ops).unchecked = s.unchecked.after builtin (ops.map Operation.unchecked)
  | [], _ => rfl
  | op :: ops, s => by
    show ((s.step builtin op).1.after builtin ops).unchecked =
      (s.unchecked.step builtin op.unchecked).1.after builtin (ops.map Operation.unchecked)
    rw [after_unchecked ops, step_unchecked]

/-! ## Strict and permissive insertion -/

theorem inserting_unchecked (i : Insertion) : (s.inserting id i).unchecked = s.unchecked := by
  unfold inserting unchecked mapWrappers
  simp only [List.map_map]
  congr 1
  refine List.map_congr_left fun row _ => ?_
  by_cases h : row.1 = id <;> simp only [Function.comp, h] <;> rfl

theorem lookup_inserting (i : Insertion) :
    (s.inserting id i).wrappers.lookup id = (s.wrappers.lookup id).map (·.inserting i) := by
  refine (lookup_map_rows (fun name (w : Wrapper) => if name = id then w.inserting i else w)
    id s.wrappers).trans ?_
  simp only [if_true]

/-- A wrapper that checks nothing rejects nothing. -/
theorem not_rejects_permissive {op : Operation} (hop : op.subject? = some id) (r : Refusal) :
    ¬ (s.inserting id .permissive).Rejects op r := by
  rintro ⟨id', w, hop', hw, hs, -⟩
  rw [hop] at hop'
  cases hop'
  rw [lookup_inserting] at hw
  obtain ⟨w, -, rfl⟩ := Option.map_eq_some_iff.mp hw
  cases hs

/-- An operation on a wrapper succeeds with strict insertion exactly if it does with
permissive insertion, and then leaves the same and answers the same. If the two fail
differently, strict insertion rejects the kind of an argument. -/
theorem strictness_changes_faults_only (s : Store) {id : String} {op : Operation}
    (hop : op.subject? = some id) :
    let strict := (s.inserting id .strict).run builtin op
    let permissive := (s.inserting id .permissive).run builtin op
    ((∃ result, strict = .ok result) ↔ ∃ result, permissive = .ok result) ∧
      (∀ s₁ s₂ a₁ a₂, strict = .ok (s₁, a₁) → permissive = .ok (s₂, a₂) →
        s₁.contents = s₂.contents ∧ s₁.unchecked = s₂.unchecked ∧ a₁ = a₂) ∧
      ∀ r₁ r₂, strict = .error r₁ → permissive = .error r₂ → r₁ ≠ r₂ →
        ∃ w, s.wrappers.lookup id = some w ∧ ∃ x ∈ op.inserted w.type,
          builtin.acceptsValue x.value x.type = .ok false ∧
            ∃ human, builtin.humanName x.type = .ok human ∧
              r₁ = .fault (.wrongKind human x.role x.value.typeName) := by
  intro strict permissive
  have hs := run_unchecked (s.inserting id .strict) op
  have hp := run_unchecked (s.inserting id .permissive) op
  rw [inserting_unchecked] at hs hp
  refine ⟨hs.exists_ok_iff.trans hp.exists_ok_iff.symm, fun s₁ s₂ a₁ a₂ h₁ h₂ => ?_,
    fun r₁ r₂ h₁ h₂ hne => ?_⟩
  · have hsame := (hs.of_ok h₁).symm.trans (hp.of_ok h₂)
    obtain ⟨hstore, hanswer⟩ := Prod.mk.inj (Except.ok.inj hsame)
    have hcontents : s₁.unchecked.contents = s₂.unchecked.contents := by rw [hstore]
    exact ⟨hcontents, hstore, hanswer⟩
  · have hr₂ := (hp.of_error h₂).resolve_left (not_rejects_permissive hop r₂)
    have hr₁ : (s.inserting id .strict).Rejects op r₁ :=
      (hs.of_error h₁).resolve_right fun hr₁ => hne (Except.error.inj (hr₁.symm.trans hr₂))
    obtain ⟨id', w', hop', hw', -, hrejected⟩ := hr₁
    rw [hop] at hop'
    cases hop'
    rw [lookup_inserting] at hw'
    obtain ⟨w, hw, rfl⟩ := Option.map_eq_some_iff.mp hw'
    exact ⟨w, hw, hrejected⟩

/-- A map of sets that takes one entry. Of the other the key is out of range and the value
is a list: the value is at fault with strict insertion, the key with permissive insertion. -/
theorem strictness_changes_faults_only_nested :
    let type : WrappedType := .map (.primitive .int32) (.set (.primitive .float32))
    let s := empty.after builtin [.create "m" type .permissive .empty]
    let taken : Operation := .put "m" (.int 7) (.set [.int 1, .int 2])
    let refused : Operation := .put "m" (.int 2147483648) (.list [])
    (∃ result, (s.inserting "m" .strict).run builtin taken = .ok result) ∧
      (∃ r₁ r₂, (s.inserting "m" .strict).run builtin refused = .error r₁ ∧
        (s.inserting "m" .permissive).run builtin refused = .error r₂ ∧ r₁ ≠ r₂) ∧
      ∃ x ∈ refused.inserted type, builtin.acceptsValue x.value x.type = .ok false := by
  intro type s taken refused
  have htaken := strictness_changes_faults_only s (show taken.subject? = some "m" from rfl)
  have hrefused := strictness_changes_faults_only s (show refused.subject? = some "m" from rfl)
  have hne : Refusal.fault (.wrongKind "set [float]" "values" "list") ≠
      .fault (.outOfRange 2147483648 .int32) := nofun
  obtain ⟨w, hw, x, hx, hrejected, -⟩ := hrefused.2.2 _ _ rfl rfl hne
  cases hw
  exact ⟨htaken.1.mpr ⟨_, rfl⟩, ⟨_, _, rfl, rfl, hne⟩, x, hx, hrejected⟩

end Store

end WrapGen
