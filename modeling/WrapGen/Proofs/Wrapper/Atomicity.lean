import WrapGen.Proofs.Wrapper.Typed

/-!
# Operations as they go

`Store.run` answers with a store only where nothing fails, so it cannot tell an
operation that writes last from one that writes too early. `perform` runs the same
operations as computations whose writes take effect at once: a failure ends the
computation in the store that it has come to, and takes nothing back. A container
is filled from a host collection item by item, and an iterator moves on before the
key that it comes to is converted.

Whatever an operation looks at or converts it does before its first write, an
iterator apart, and what an iterator comes to is always converted. So in every
store that is reached the two agree (`perform_eq`), and the store in which an
operation fails is the one that it has found.

* `failures_change_nothing`: so a failure changes nothing, wherever it comes.
-/
namespace WrapGen

/-! ## Filling item by item -/

theorem foldlM_eq_mapM {ε α β γ : Type} {f : α → Except ε β} {g : γ → β → γ} :
    ∀ (xs : List α) (acc : γ), (xs.foldlM (fun acc x => do return g acc (← f x)) acc) =
      (do return (← xs.mapM f).foldl g acc)
  | [], _ => rfl
  | x :: xs, acc => by
    rw [List.foldlM_cons, List.mapM_cons]
    cases f x with
    | error e => rfl
    | ok y =>
      show xs.foldlM _ (g acc y) = (xs.mapM f >>= fun ys => pure (y :: ys)) >>= _
      rw [foldlM_eq_mapM xs (g acc y)]
      cases xs.mapM f <;> rfl

namespace Content

/-- The content that a host collection gives, filled item by item. -/
def fill (t : WrappedType) (v : HostValue) : Except Fault Content :=
  match t with
  | .set e => do
    let items ← itemsOf t v
    items.foldlM (fun content item => do return content.add (← e.toDatum item)) (empty t)
  | .map k e => do
    let entries ← entriesOf t v
    entries.foldlM (fun content entry => do
      let stored ← storeEntry k e entry
      return content.put stored.1 stored.2) (empty t)

theorem foldl_add (ds : List Datum) : ∀ items : List Datum,
    ds.foldl add (set items) = set (ds.foldl (fun acc d => Ordered.insert id d acc) items) := by
  induction ds with
  | nil => exact fun _ => rfl
  | cons d ds ih => exact fun items => ih (Ordered.insert id d items)

theorem foldl_put (ds : List (Datum × Datum)) : ∀ entries : List (Datum × Datum),
    ds.foldl (fun content d => content.put d.1 d.2) (map entries) =
      map (ds.foldl (fun acc d => Ordered.insert Prod.fst d acc) entries) := by
  induction ds with
  | nil => exact fun _ => rfl
  | cons d ds ih => exact fun entries => ih (Ordered.insert Prod.fst d entries)

/-- Filling item by item ends as converting all items first. -/
theorem fill_eq_ofHost (t : WrappedType) (v : HostValue) : fill t v = ofHost t v := by
  cases t with
  | set e =>
    unfold fill ofHost
    cases itemsOf (.set e) v with
    | error f => rfl
    | ok items =>
      show items.foldlM _ (set []) = items.mapM e.toDatum >>= fun ds => _
      rw [foldlM_eq_mapM (g := add)]
      cases items.mapM e.toDatum with
      | error f => rfl
      | ok ds => exact congrArg Except.ok (foldl_add ds [])
  | map k e =>
    unfold fill ofHost
    cases entriesOf (.map k e) v with
    | error f => rfl
    | ok entries =>
      show entries.foldlM _ (map []) = entries.mapM (storeEntry k e) >>= fun ds => _
      rw [foldlM_eq_mapM (f := storeEntry k e)
        (g := fun (content : Content) (d : Datum × Datum) => content.put d.1 d.2)]
      cases entries.mapM (storeEntry k e) with
      | error f => rfl
      | ok ds => exact congrArg Except.ok (foldl_put ds [])

end Content

namespace Store

/-! ## Computations on a store -/

/-- A look at the store. -/
def look {α : Type} (f : Store → Except Refusal α) : EStateM Refusal Store α := fun s =>
  match f s with
  | .ok a => .ok a s
  | .error r => .error r s

/-- A check or a conversion, which does not look at the store. -/
def attempt {α : Type} (x : Except Refusal α) : EStateM Refusal Store α := look fun _ => x

/-- The iterator that a name is bound to. -/
def cursor (s : Store) (iterator : String) : Except Refusal Cursor :=
  match s.cursors.lookup iterator with
  | some cursor => .ok cursor
  | none => .error .unbound

/-- A new container, and its owner. -/
def allocate (type : WrappedType) (insertion : Insertion) (content : Content) :
    EStateM Refusal Store Wrapper := do
  let s ← get
  set { s with contents := s.contents ++ [content] }
  return ⟨type, insertion, s.contents.length, true⟩

/-- The wrapper that an origin gives. -/
def construct (c : Catalog) (type : WrappedType) (insertion : Insertion) :
    Origin → EStateM Refusal Store Wrapper
  | .empty => do
    let type ← attempt (refuseType type.checked)
    allocate type insertion (Content.empty type)
  | .host v => do
    let type ← attempt (refuseType type.checked)
    let content ← attempt (refuse (Content.fill type v))
    allocate type insertion content
  | .alias source owns => do
    let w ← look (·.wrapper source)
    unless w.type.sameKind type do
      throw .unbound
    let type ← attempt (refuseType type.checked)
    if w.type ≠ type then
      let human ← attempt (refuseType (c.humanName type.elementType))
      throw (.fault (.wrongKind human "aliases" type.elementType.headToken))
    let _ ← look (·.content w)
    return ⟨type, insertion, w.storage, owns == some true⟩

/-- A change of the container of a wrapper, answered with its size afterwards. -/
def change (w : Wrapper) (f : Content → Content) : EStateM Refusal Store Answer := do
  modify fun s => s.setContent w.storage (f (s.contentAt w.storage))
  let s ← get
  return .count (s.contentAt w.storage).size

/-- Removes a key from the container of a wrapper. -/
def takeOut (c : Catalog) (w : Wrapper) (key : HostValue) : EStateM Refusal Store Answer := do
  let content ← look (·.content w)
  match ← attempt (refuse (c.lookup key w.type.keyType)) with
  | none => return .count content.size
  | some k => change w (·.erase k)

/-- The store with an iterator moved to a position. -/
def moveTo (s : Store) (iterator : String) (cursor : Cursor) (p : Position) : Store :=
  { s with cursors := rebind iterator { cursor with position := p } s.cursors }

/-- The step of an iterator from the key that it has come to last. -/
def advance (iterator : String) (cursor : Cursor) (last : Option Datum) :
    EStateM Refusal Store Answer := do
  let s ← get
  match Ordered.firstAfter id last (s.contentAt cursor.storage).keys with
  | none =>
    modify (·.moveTo iterator cursor .done)
    return .exhausted
  | some key =>
    modify (·.moveTo iterator cursor (.after key))
    let v ← attempt (refuse (key.toHost cursor.item))
    return .value v

/-- An operation, its writes done at once. -/
def perform (c : Catalog) : Operation → EStateM Refusal Store Answer
  | .create id type insertion origin => do
    let w ← construct c type insertion origin
    modify fun s => { s with wrappers := rebind id w s.wrappers }
    return .created w.type w.owns
  | .drop id => do
    let s ← get
    set { s with wrappers := unbind id s.wrappers }
    return .flag (s.wrappers.lookup id).isSome
  | .dropIterator id => do
    let s ← get
    set { s with cursors := unbind id s.cursors }
    return .flag (s.cursors.lookup id).isSome
  | .contains id key => do
    let w ← look (·.wrapper id)
    let content ← look (·.content w)
    match ← attempt (refuse (c.lookup key w.type.keyType)) with
    | none => return .flag false
    | some k => return .flag (content.contains k)
  | .size id => do
    let w ← look (·.wrapper id)
    let content ← look (·.content w)
    return .count content.size
  | .isEmpty id => do
    let w ← look (·.wrapper id)
    let content ← look (·.content w)
    return .flag (content.size == 0)
  | .owns id => do
    let w ← look (·.wrapper id)
    return .flag w.owns
  | .toHost id => do
    let w ← look (·.wrapper id)
    let content ← look (·.content w)
    let v ← attempt (refuse (content.datum.toHost w.type.elementType))
    return .value v
  | .add id value => do
    let (w, e) ← look (·.setWrapper id)
    let _ ← look (·.content w)
    attempt (checkInsertion c w value e "values")
    let x ← attempt (refuse (e.toDatum value))
    change w (·.add x)
  | .discard id value => do
    let (w, _) ← look (·.setWrapper id)
    takeOut c w value
  | .get id key => do
    let (w, k, v) ← look (·.mapWrapper id)
    let content ← look (·.content w)
    attempt (refuse (c.check key k "keys"))
    match (← attempt (refuse (c.lookup key k))).bind content.get? with
    | none => throw (.fault (.absentKey key))
    | some d =>
      let found ← attempt (refuse (d.toHost v))
      return .value found
  | .put id key value => do
    let (w, k, v) ← look (·.mapWrapper id)
    let _ ← look (·.content w)
    attempt (checkInsertion c w key k "keys")
    attempt (checkInsertion c w value v "values")
    let x ← attempt (refuse (k.toDatum key))
    let y ← attempt (refuse (v.toDatum value))
    change w (·.put x y)
  | .delete id key => do
    let (w, _) ← look (·.mapWrapper id)
    takeOut c w key
  | .iterate id iterator => do
    let w ← look (·.wrapper id)
    let _ ← look (·.content w)
    modify fun s =>
      { s with cursors := rebind iterator ⟨w.type.keyType, w.storage, .start⟩ s.cursors }
    return .done
  | .next iterator => do
    let cursor ← look (·.cursor iterator)
    match cursor.position with
    | .start => advance iterator cursor none
    | .after key => advance iterator cursor (some key)
    | .done => return .exhausted

/-! ## Both ways to run an operation -/

/-- The end of a computation that does all or nothing. -/
def outcome {α : Type} (s : Store) : Except Refusal (Store × α) → EStateM.Result Refusal Store α
  | .ok (s', a) => .ok a s'
  | .error r => .error r s

variable {c : Catalog} {s : Store}

/-- What only looks at the store may come first. -/
theorem look_bind {α β : Type} {f : Store → Except Refusal α} {g : α → EStateM Refusal Store β}
    {k : α → Except Refusal (Store × β)} (h : ∀ a, f s = .ok a → g a s = outcome s (k a)) :
    (look f >>= g) s = outcome s (f s >>= k) := by
  show EStateM.bind (look f) g s = _
  unfold EStateM.bind look
  cases hf : f s with
  | error r => rfl
  | ok a => exact h a hf

theorem attempt_bind {α β : Type} {x : Except Refusal α} {g : α → EStateM Refusal Store β}
    {k : α → Except Refusal (Store × β)} (h : ∀ a, x = .ok a → g a s = outcome s (k a)) :
    (attempt x >>= g) s = outcome s (x >>= k) :=
  look_bind h

theorem get_bind {α : Type} (g : Store → EStateM Refusal Store α) : (get >>= g) s = g s s := rfl

theorem contentAt_setContent {n : Nat} (hn : n < s.contents.length) (content : Content) :
    (s.setContent n content).contentAt n = content := by
  show (s.contents.set n content)[n]?.getD _ = content
  rw [List.getElem?_set_self hn]
  rfl

/-- A change that comes last is the write that an operation ends with. -/
theorem change_eq {w : Wrapper} (hw : w.storage < s.contents.length) (f : Content → Content) :
    change w f s = outcome s (.ok (s.setContent w.storage (f (s.contentAt w.storage)),
      .count (f (s.contentAt w.storage)).size)) := by
  show EStateM.Result.ok (Answer.count ((s.setContent w.storage _).contentAt w.storage).size) _ = _
  rw [contentAt_setContent hw]
  rfl

/-- The step of an iterator from the key that it has come to last, done at once. -/
def advanced (s : Store) (iterator : String) (cursor : Cursor) (last : Option Datum) :
    Except Refusal (Store × Answer) :=
  match Ordered.firstAfter id last (s.contentAt cursor.storage).keys with
  | none => .ok (s.moveTo iterator cursor .done, .exhausted)
  | some key => do
    let v ← refuse (key.toHost cursor.item)
    return (s.moveTo iterator cursor (.after key), .value v)

section
variable {types : List WrappedType} (h : WellTyped types s)
include h

theorem WellTyped.storage_lt {id : String} {w : Wrapper} (hw : s.wrappers.lookup id = some w) :
    w.storage < s.contents.length :=
  (List.getElem?_eq_some_iff.mp (h.toTyping.contentAt (h.lookup hw)).1).1

omit h in
theorem construct_eq (type : WrappedType) (insertion : Insertion) (origin : Origin) :
    construct c type insertion origin s =
      outcome s (s.build c type insertion origin >>= fun r => .ok (r.2, r.1)) := by
  cases origin with
  | empty =>
    rw [build, bind_assoc]
    exact attempt_bind fun type _ => rfl
  | host v =>
    rw [build, bind_assoc]
    refine attempt_bind fun type _ => ?_
    rw [bind_assoc, ← Content.fill_eq_ofHost]
    exact attempt_bind fun content _ => rfl
  | «alias» source owns =>
    rw [build, bind_assoc]
    refine look_bind fun w _ => ?_
    cases w.type.sameKind type with
    | false => rfl
    | true =>
      simp only [if_true]
      rw [bind_assoc]
      refine attempt_bind fun type _ => ?_
      by_cases ht : w.type = type
      · simp only [ne_eq, ht, not_true_eq_false, if_false]
        rw [bind_assoc]
        exact look_bind fun content _ => rfl
      · simp only [ne_eq, ht, not_false_eq_true, if_true]
        rw [bind_assoc]
        exact attempt_bind fun human _ => rfl

theorem takeOut_eq {id : String} {w : Wrapper} (hw : s.wrappers.lookup id = some w)
    (key : HostValue) : takeOut c w key s = outcome s (s.remove c w key) := by
  refine look_bind fun content hcontent => attempt_bind fun k? _ => ?_
  obtain ⟨-, rfl⟩ := content_eq_ok hcontent
  cases k? with
  | none => rfl
  | some k => exact change_eq (h.storage_lt hw) (·.erase k)

omit h in
/-- An iterator whose step succeeds has moved on and converted the key. -/
theorem advance_eq {iterator : String} {cursor : Cursor} {last : Option Datum}
    {result : Store × Answer} (hr : s.advanced iterator cursor last = .ok result) :
    advance iterator cursor last s = outcome s (s.advanced iterator cursor last) := by
  unfold advanced at hr ⊢
  rw [advance, get_bind]
  cases hk : Ordered.firstAfter id last (s.contentAt cursor.storage).keys with
  | none => rfl
  | some key =>
    rw [hk] at hr
    obtain ⟨v, hv, -⟩ := bind_eq_ok hr
    dsimp only
    rw [hv]
    rfl

theorem perform_next (iterator : String) :
    perform c (.next iterator) s = outcome s (s.run c (.next iterator)) := by
  cases hc : s.cursors.lookup iterator with
  | none =>
    have hlook : s.cursor iterator = .error .unbound := by
      rw [cursor, hc]
    rw [run, hc]
    show EStateM.bind (look (·.cursor iterator)) _ s = _
    rw [EStateM.bind, look, hlook]
    rfl
  | some cursor =>
    have hlook : s.cursor iterator = .ok cursor := by
      rw [Store.cursor, hc]
    show EStateM.bind (look (·.cursor iterator)) _ s = _
    rw [EStateM.bind, look, hlook]
    obtain ⟨result, hr⟩ := h.next c hc
    rw [run, hc] at hr ⊢
    dsimp only at hr ⊢
    cases hp : cursor.position with
    | start =>
      rw [hp] at hr
      exact advance_eq hr
    | after key =>
      rw [hp] at hr
      exact advance_eq hr
    | done => rfl

/-- In a store that is well-typed an operation as it goes ends like the one that is
done at once. -/
theorem perform_eq (op : Operation) : perform c op s = outcome s (s.run c op) := by
  cases op with
  | create id type insertion origin =>
    rw [run]
    show EStateM.bind (construct c type insertion origin) _ s = _
    rw [EStateM.bind, construct_eq]
    cases s.build c type insertion origin <;> rfl
  | drop id => rfl
  | dropIterator id => rfl
  | contains id key =>
    refine look_bind fun w _ => look_bind fun content _ => attempt_bind fun k? _ => ?_
    cases k? <;> rfl
  | size id => exact look_bind fun w _ => look_bind fun content _ => rfl
  | isEmpty id => exact look_bind fun w _ => look_bind fun content _ => rfl
  | owns id => exact look_bind fun w _ => rfl
  | toHost id =>
    exact look_bind fun w _ => look_bind fun content _ => attempt_bind fun v _ => rfl
  | add id value =>
    refine look_bind fun p hw => look_bind fun content hcontent => ?_
    refine attempt_bind fun _ _ => attempt_bind fun x _ => ?_
    obtain ⟨w, e⟩ := p
    obtain ⟨-, rfl⟩ := content_eq_ok hcontent
    exact change_eq (h.storage_lt (setWrapper_eq_ok hw).1) (·.add x)
  | discard id value =>
    exact look_bind fun _ hw => takeOut_eq h (setWrapper_eq_ok hw).1 value
  | get id key =>
    refine look_bind fun _ _ => look_bind fun content _ => ?_
    refine attempt_bind fun _ _ => attempt_bind fun k? _ => ?_
    cases k?.bind content.get? with
    | none => rfl
    | some d => exact attempt_bind fun v _ => rfl
  | put id key value =>
    refine look_bind fun p hw => look_bind fun content hcontent => ?_
    refine attempt_bind fun _ _ => attempt_bind fun _ _ => ?_
    refine attempt_bind fun x _ => attempt_bind fun y _ => ?_
    obtain ⟨w, k, v⟩ := p
    obtain ⟨-, rfl⟩ := content_eq_ok hcontent
    exact change_eq (h.storage_lt (mapWrapper_eq_ok hw).1) (·.put x y)
  | delete id key =>
    exact look_bind fun _ hw => takeOut_eq h (mapWrapper_eq_ok hw).1 key
  | iterate id iterator => exact look_bind fun w _ => look_bind fun content _ => rfl
  | next iterator => exact perform_next h iterator

/-! ## Failures -/

/-- An operation that cannot succeed fails in the store that it has found. -/
theorem perform_error {op : Operation} (hop : ∀ result, s.run c op ≠ .ok result) :
    ∃ r, perform c op s = .error r s := by
  rw [perform_eq h]
  cases hr : s.run c op with
  | ok result => exact absurd hr (hop result)
  | error r => exact ⟨r, rfl⟩

omit h in
theorem run_create_host {id : String} {type : WrappedType} {insertion : Insertion} {v : HostValue}
    {result : Store × Answer} (hr : s.run c (.create id type insertion (.host v)) = .ok result) :
    ∃ content, Content.ofHost type v = .ok content := by
  obtain ⟨built, hb, -⟩ := bind_eq_ok hr
  obtain ⟨t, ht, hcontent⟩ := bind_eq_ok hb
  obtain ⟨rfl, -⟩ := checked_eq_ok ht
  obtain ⟨content, hc, -⟩ := bind_eq_ok hcontent
  exact ⟨content, refuse_eq_ok hc⟩

omit h in
theorem run_put {id : String} {w : Wrapper} {k t : ElementType} {key v : HostValue}
    {result : Store × Answer} (hw : s.wrappers.lookup id = some w) (ht : w.type = .map k t)
    (hr : s.run c (.put id key v) = .ok result) :
    ∃ x y, k.toDatum key = .ok x ∧ t.toDatum v = .ok y := by
  rw [run, mapWrapper_bind hw ht] at hr
  obtain ⟨content, -, hr⟩ := bind_eq_ok hr
  obtain ⟨-, -, hr⟩ := bind_eq_ok hr
  obtain ⟨-, -, hr⟩ := bind_eq_ok hr
  obtain ⟨x, hx, hr⟩ := bind_eq_ok hr
  obtain ⟨y, hy, -⟩ := bind_eq_ok hr
  exact ⟨x, y, refuse_eq_ok hx, refuse_eq_ok hy⟩

end

/-- No operation that fails in a store leaves a trace of what it has done. -/
structure Atomic (c : Catalog) (s : Store) : Prop where
  /-- Doing everything at once, or nothing, is what the operations come to. -/
  agrees : ∀ op, perform c op s = outcome s (s.run c op)
  /-- Every container keeps its content, and every name what it is bound to. -/
  unchanged : ∀ op r s', perform c op s = .error r s' → s' = s
  /-- An assignment fails if the value cannot be converted, whatever the key. -/
  value : ∀ id w k t key v f, s.wrappers.lookup id = some w → w.type = .map k t →
    t.toDatum v = .error f → ∃ r, perform c (.put id key v) s = .error r s
  /-- A set is not made from a collection with an item that cannot be converted,
  whatever comes before it. -/
  item : ∀ id e insertion v items item f, Content.itemsOf (.set e) v = .ok items → item ∈ items →
    e.toDatum item = .error f →
    ∃ r, perform c (.create id (.set e) insertion (.host v)) s = .error r s
  /-- Nor is a map from one with an entry whose key or value cannot be converted. -/
  entry : ∀ id k t insertion v entries entry f, Content.entriesOf (.map k t) v = .ok entries →
    entry ∈ entries → (k.toDatum entry.1 = .error f ∨ t.toDatum entry.2 = .error f) →
    ∃ r, perform c (.create id (.map k t) insertion (.host v)) s = .error r s

theorem WellTyped.atomic {types : List WrappedType} (h : WellTyped types s) (c : Catalog) :
    Atomic c s where
  agrees := perform_eq h
  unchanged := by
    intro op r s' hr
    rw [perform_eq h] at hr
    cases hrun : s.run c op with
    | ok result =>
      rw [hrun] at hr
      cases hr
    | error e =>
      rw [hrun] at hr
      cases hr
      rfl
  value := by
    intro id w k t key v f hw ht hv
    refine perform_error h fun result hr => ?_
    obtain ⟨x, y, -, hy⟩ := run_put hw ht hr
    cases hv.symm.trans hy
  item := by
    intro id e insertion v items item f hitems hitem hf
    refine perform_error h fun result hr => ?_
    obtain ⟨content, hc⟩ := run_create_host hr
    obtain ⟨items', hitems', hc⟩ := bind_eq_ok hc
    cases hitems.symm.trans hitems'
    obtain ⟨ds, hds, -⟩ := bind_eq_ok hc
    obtain ⟨d, hd⟩ := exists_eq_ok_of_mapM hds item hitem
    cases hf.symm.trans hd
  entry := by
    intro id k t insertion v entries entry f hentries hentry hf
    refine perform_error h fun result hr => ?_
    obtain ⟨content, hc⟩ := run_create_host hr
    obtain ⟨entries', hentries', hc⟩ := bind_eq_ok hc
    cases hentries.symm.trans hentries'
    obtain ⟨ds, hds, -⟩ := bind_eq_ok hc
    obtain ⟨d, hd⟩ := exists_eq_ok_of_mapM hds entry hentry
    obtain ⟨x, hx, hd⟩ := bind_eq_ok hd
    obtain ⟨y, hy, -⟩ := bind_eq_ok hd
    rcases hf with hf | hf
    · cases hf.symm.trans hx
    · cases hf.symm.trans hy

/-! ## Every run -/

/-- The store in which an operation ends, whether it succeeds or fails. -/
def performed (c : Catalog) (s : Store) (op : Operation) : Store :=
  match perform c op s with
  | .ok _ s' => s'
  | .error _ s' => s'

theorem performed_eq {types : List WrappedType} (h : WellTyped types s) (op : Operation) :
    performed c s op = (s.step c op).1 := by
  unfold performed step
  rw [perform_eq h]
  cases s.run c op <;> rfl

theorem foldl_performed : ∀ (ops : List Operation) {s : Store} {types : List WrappedType},
    WellTyped types s → ops.foldl (performed c) s = s.after c ops
  | [], _, _, _ => rfl
  | op :: ops, s, _, h => by
    obtain ⟨types', h'⟩ := h.effect (step_effect c s op)
    rw [List.foldl_cons, performed_eq h, foldl_performed ops h']
    rfl

/-- Operations whose writes take effect at once come, one after the other, to the
same stores as operations that do all or nothing, and in each of these a failure
changes nothing: the store in which the operation fails is the one before it. -/
theorem failures_change_nothing (c : Catalog) (ops : List Operation) :
    ops.foldl (performed c) empty = empty.after c ops ∧ Atomic c (empty.after c ops) := by
  obtain ⟨types, h⟩ := wellTyped_after c ops
  obtain ⟨start, hstart⟩ := wellTyped_after c []
  exact ⟨foldl_performed ops hstart, h.atomic c⟩

end Store

end WrapGen
