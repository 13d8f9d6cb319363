import WrapGen.Proofs.Results
import WrapGen.Wrapper.Store

/-!
# What one operation does to a store

`Effect s op s'` lists the ways in which the operation `op`, if it is not refused,
turns the store `s` into `s'`, with what is known about the store whenever it
does so.
`run_effect` says that these are all; an operation that is refused changes
nothing. What holds along every run is proved from this list.

* `step_effect`: one operation.
* `after_induction`: what the empty store has and every effect keeps, the store
  has after any operations.
-/
namespace WrapGen

/-- The wrapper whose container an operation looks at or changes. -/
def Operation.subject? : Operation → Option String
  | .contains id _ | .size id | .isEmpty id | .toHost id | .add id _ | .discard id _ | .get id _
  | .put id _ _ | .delete id _ => some id
  | _ => none

namespace Store

/-- The store after operations, one after the other. -/
def after (c : Catalog) (s : Store) (ops : List Operation) : Store :=
  ops.foldl (fun s op => (s.step c op).1) s

/-- The content that a container of a type starts with. -/
def IsStart (t : WrappedType) (content : Content) : Prop :=
  content = Content.empty t ∨ ∃ v, Content.ofHost t v = .ok content

/-- How an operation changes a store. -/
inductive Effect (s : Store) : Operation → Store → Prop
  | same {op : Operation} : Effect s op s
  /-- A wrapper with a container of its own. -/
  | fresh {origin : Origin} (id : String) (w : Wrapper) (content : Content)
      (hs : w.storage = s.contents.length) (ho : w.owns = true)
      (hk : w.type.keyType.isKey = true) (hc : IsStart w.type content) :
      Effect s (.create id w.type w.insertion origin) { s with
        contents := s.contents ++ [content], wrappers := rebind id w s.wrappers }
  /-- A wrapper of the live container of another wrapper. -/
  | shared {owns : Option Bool} (id source : String) (v w : Wrapper)
      (hv : s.wrappers.lookup source = some v) (hl : s.isLive v.storage = true)
      (hs : w.storage = v.storage) (ht : w.type = v.type) (hk : w.type.keyType.isKey = true) :
      Effect s (.create id w.type w.insertion (.alias source owns)) { s with
        wrappers := rebind id w s.wrappers }
  | dropped (id : String) : Effect s (.drop id) { s with wrappers := unbind id s.wrappers }
  | closed (iterator : String) :
      Effect s (.dropIterator iterator) { s with cursors := unbind iterator s.cursors }
  | erased {op : Operation} (id : String) (w : Wrapper) (k : Datum)
      (hw : s.wrappers.lookup id = some w) (hl : s.isLive w.storage = true)
      (ho : op.subject? = some id) :
      Effect s op (s.setContent w.storage ((s.contentAt w.storage).erase k))
  | added (id : String) (w : Wrapper) (e : ElementType) (v : HostValue) (x : Datum)
      (hw : s.wrappers.lookup id = some w) (hl : s.isLive w.storage = true)
      (ht : w.type = .set e) (hx : e.toDatum v = .ok x) :
      Effect s (.add id v) (s.setContent w.storage ((s.contentAt w.storage).add x))
  | put (id : String) (w : Wrapper) (k t : ElementType) (key value : HostValue) (x y : Datum)
      (hw : s.wrappers.lookup id = some w) (hl : s.isLive w.storage = true)
      (ht : w.type = .map k t) (hx : k.toDatum key = .ok x) (hy : t.toDatum value = .ok y) :
      Effect s (.put id key value) (s.setContent w.storage ((s.contentAt w.storage).put x y))
  | opened (id iterator : String) (w : Wrapper) (hw : s.wrappers.lookup id = some w)
      (hl : s.isLive w.storage = true) :
      Effect s (.iterate id iterator) { s with
        cursors := rebind iterator ⟨w.type.keyType, w.storage, .start⟩ s.cursors }
  | moved (iterator : String) (cursor : Cursor) (p : Position)
      (hc : s.cursors.lookup iterator = some cursor) :
      Effect s (.next iterator) { s with
        cursors := rebind iterator { cursor with position := p } s.cursors }

/-! ## Parts of an operation -/

variable {c : Catalog} {s s' : Store}

theorem wrapper_eq_ok {id : String} {w : Wrapper} (h : s.wrapper id = .ok w) :
    s.wrappers.lookup id = some w := by
  unfold wrapper at h
  split at h
  · rename_i v hv
    cases h
    exact hv
  · cases h

theorem setWrapper_eq_ok {id : String} {w : Wrapper} {e : ElementType}
    (h : s.setWrapper id = .ok (w, e)) :
    s.wrappers.lookup id = some w ∧ w.type = .set e := by
  obtain ⟨v, hv, h⟩ := bind_eq_ok h
  split at h
  · rename_i e' he
    cases h
    exact ⟨wrapper_eq_ok hv, he⟩
  · cases h

theorem mapWrapper_eq_ok {id : String} {w : Wrapper} {k t : ElementType}
    (h : s.mapWrapper id = .ok (w, k, t)) :
    s.wrappers.lookup id = some w ∧ w.type = .map k t := by
  obtain ⟨v, hv, h⟩ := bind_eq_ok h
  split at h
  · rename_i k' t' ht
    cases h
    exact ⟨wrapper_eq_ok hv, ht⟩
  · cases h

theorem content_eq_ok {w : Wrapper} {content : Content} (h : s.content w = .ok content) :
    s.isLive w.storage = true ∧ content = s.contentAt w.storage := by
  unfold Store.content at h
  split at h
  · rename_i hl
    cases h
    exact ⟨hl, rfl⟩
  · cases h

theorem refuse_eq_ok {α : Type} {x : Except Fault α} {a : α} (h : refuse x = .ok a) :
    x = .ok a := by
  cases x with
  | error e => cases h
  | ok b => cases h; rfl

theorem checked_eq_ok {t t' : WrappedType} (h : refuseType t.checked = .ok t') :
    t' = t ∧ t.keyType.isKey = true := by
  unfold refuseType refuse Fault.ofDescriptor WrappedType.checked ElementType.asKey at h
  split at h
  · rename_i hk
    cases h
    exact ⟨rfl, hk⟩
  · cases h

/-! ## Every operation -/

theorem create_effect {id : String} {type : WrappedType} {insertion : Insertion} {origin : Origin}
    {a : Answer} (h : s.run c (.create id type insertion origin) = .ok (s', a)) :
    s.Effect (.create id type insertion origin) s' := by
  obtain ⟨⟨w, s₁⟩, hb, h⟩ := bind_eq_ok h
  cases h
  cases origin with
  | empty =>
    obtain ⟨t, ht, hw⟩ := bind_eq_ok hb
    obtain ⟨rfl, hk⟩ := checked_eq_ok ht
    cases hw
    exact .fresh id ⟨t, insertion, _, true⟩ _ rfl rfl hk (Or.inl rfl)
  | host v =>
    obtain ⟨t, ht, hw⟩ := bind_eq_ok hb
    obtain ⟨rfl, hk⟩ := checked_eq_ok ht
    obtain ⟨content, hc, hw'⟩ := bind_eq_ok hw
    cases hw'
    exact .fresh id ⟨t, insertion, _, true⟩ _ rfl rfl hk (Or.inr ⟨v, refuse_eq_ok hc⟩)
  | «alias» source owns =>
    obtain ⟨v, hv, h₁⟩ := bind_eq_ok hb
    dsimp only at h₁
    split at h₁
    · obtain ⟨t, ht, h₂⟩ := bind_eq_ok h₁
      obtain ⟨rfl, hk⟩ := checked_eq_ok ht
      split at h₂
      · obtain ⟨human, -, h₃⟩ := bind_eq_ok h₂
        cases h₃
      · rename_i heq
        obtain ⟨content, hc, h₃⟩ := bind_eq_ok h₂
        cases h₃
        exact .shared id source v ⟨t, insertion, v.storage, _⟩ (wrapper_eq_ok hv)
          (content_eq_ok hc).1 rfl (not_not.mp heq).symm hk
    · cases h₁

theorem remove_effect {op : Operation} {id : String} {w : Wrapper} {key : HostValue} {a : Answer}
    (ho : op.subject? = some id) (hw : s.wrappers.lookup id = some w)
    (h : s.remove c w key = .ok (s', a)) : s.Effect op s' := by
  obtain ⟨content, hc, h⟩ := bind_eq_ok h
  obtain ⟨hl, rfl⟩ := content_eq_ok hc
  obtain ⟨k?, -, h⟩ := bind_eq_ok h
  cases k? with
  | none =>
    cases h
    exact .same
  | some k =>
    cases h
    exact .erased id w k hw hl ho

/-- An operation that is not refused has one of the effects. -/
theorem run_effect {op : Operation} {a : Answer} (h : s.run c op = .ok (s', a)) :
    s.Effect op s' := by
  cases op with
  | create id type insertion origin => exact create_effect h
  | drop id =>
    cases h
    exact .dropped id
  | dropIterator id =>
    cases h
    exact .closed id
  | contains id key =>
    obtain ⟨w, -, h⟩ := bind_eq_ok h
    obtain ⟨content, -, h⟩ := bind_eq_ok h
    obtain ⟨k?, -, h⟩ := bind_eq_ok h
    cases k? with
    | none => cases h; exact .same
    | some k => cases h; exact .same
  | size id =>
    obtain ⟨w, -, h⟩ := bind_eq_ok h
    obtain ⟨content, -, h⟩ := bind_eq_ok h
    cases h
    exact .same
  | isEmpty id =>
    obtain ⟨w, -, h⟩ := bind_eq_ok h
    obtain ⟨content, -, h⟩ := bind_eq_ok h
    cases h
    exact .same
  | owns id =>
    obtain ⟨w, -, h⟩ := bind_eq_ok h
    cases h
    exact .same
  | toHost id =>
    obtain ⟨w, -, h⟩ := bind_eq_ok h
    obtain ⟨content, -, h⟩ := bind_eq_ok h
    obtain ⟨v, -, h⟩ := bind_eq_ok h
    cases h
    exact .same
  | add id value =>
    obtain ⟨⟨w, e⟩, hw, h⟩ := bind_eq_ok h
    obtain ⟨hw, ht⟩ := setWrapper_eq_ok hw
    obtain ⟨content, hc, h⟩ := bind_eq_ok h
    obtain ⟨hl, rfl⟩ := content_eq_ok hc
    obtain ⟨-, -, h⟩ := bind_eq_ok h
    obtain ⟨x, hx, h⟩ := bind_eq_ok h
    cases h
    exact .added id w e value x hw hl ht (refuse_eq_ok hx)
  | discard id value =>
    obtain ⟨⟨w, e⟩, hw, h⟩ := bind_eq_ok h
    exact remove_effect rfl (setWrapper_eq_ok hw).1 h
  | get id key =>
    obtain ⟨⟨w, k, t⟩, -, h⟩ := bind_eq_ok h
    obtain ⟨content, -, h⟩ := bind_eq_ok h
    obtain ⟨-, -, h⟩ := bind_eq_ok h
    obtain ⟨k?, -, h⟩ := bind_eq_ok h
    split at h
    · cases h
    · obtain ⟨v, -, h⟩ := bind_eq_ok h
      cases h
      exact .same
  | put id key value =>
    obtain ⟨⟨w, k, t⟩, hw, h⟩ := bind_eq_ok h
    obtain ⟨hw, ht⟩ := mapWrapper_eq_ok hw
    obtain ⟨content, hc, h⟩ := bind_eq_ok h
    obtain ⟨hl, rfl⟩ := content_eq_ok hc
    obtain ⟨-, -, h⟩ := bind_eq_ok h
    obtain ⟨-, -, h⟩ := bind_eq_ok h
    obtain ⟨x, hx, h⟩ := bind_eq_ok h
    obtain ⟨y, hy, h⟩ := bind_eq_ok h
    cases h
    exact .put id w k t key value x y hw hl ht (refuse_eq_ok hx) (refuse_eq_ok hy)
  | delete id key =>
    obtain ⟨⟨w, k, t⟩, hw, h⟩ := bind_eq_ok h
    exact remove_effect rfl (mapWrapper_eq_ok hw).1 h
  | iterate id iterator =>
    obtain ⟨w, hw, h⟩ := bind_eq_ok h
    obtain ⟨content, hc, h⟩ := bind_eq_ok h
    cases h
    exact .opened id iterator w (wrapper_eq_ok hw) (content_eq_ok hc).1
  | next iterator =>
    rw [run] at h
    split at h
    · cases h
    · rename_i cursor hc
      dsimp only at h
      split at h
      · split at h
        · cases h
          exact .moved iterator cursor _ hc
        · obtain ⟨v, -, h⟩ := bind_eq_ok h
          cases h
          exact .moved iterator cursor _ hc
      · split at h
        · cases h
          exact .moved iterator cursor _ hc
        · obtain ⟨v, -, h⟩ := bind_eq_ok h
          cases h
          exact .moved iterator cursor _ hc
      · cases h
        exact .same

/-- One operation has one of the effects, or it is refused and has none. -/
theorem step_effect (c : Catalog) (s : Store) (op : Operation) : s.Effect op (s.step c op).1 := by
  unfold step
  split
  · rename_i result h
    exact run_effect (a := result.2) h
  · exact .same

theorem after_induction {P : Store → Prop} (c : Catalog) (he : P empty)
    (hs : ∀ s op s', P s → s.Effect op s' → P s') (ops : List Operation) :
    P (empty.after c ops) := by
  have hall : ∀ (ops : List Operation) (s : Store), P s → P (s.after c ops) := by
    intro ops
    induction ops with
    | nil => exact fun _ h => h
    | cons op ops ih => exact fun s h => ih _ (hs s op _ h (step_effect c s op))
  exact hall ops empty he

end Store

end WrapGen
