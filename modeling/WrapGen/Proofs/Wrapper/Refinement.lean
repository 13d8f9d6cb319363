import Mathlib.Logic.Function.Basic
import WrapGen.Proofs.Wrapper.Liveness
import WrapGen.Proofs.Wrapper.Model

/-!
# Wrappers of one storage are one set or map

`Store.collections` forgets the order of every content. In a store that
operations made from the empty one, an operation through a wrapper, be it the
owner or an alias, is `Collection.perform` on the set or map that the wrapper
shares with all others of its storage (`run_perform`), and no other operation
changes what is there (`frame`).

* `shared_collections`: this for every run, with what new wrappers start from
  and what iterators go through.
-/
namespace WrapGen

/-- The set or map that a container of its own starts as; an alias has none. -/
def Origin.start? (t : WrappedType) : Origin → Option (Except Refusal Collection)
  | .empty => some do
    let t ← Store.refuseType t.checked
    return Collection.empty t
  | .host v => some do
    let t ← Store.refuseType t.checked
    Store.refuse (Collection.ofHost t v)
  | .alias _ _ => none

/-- The key lies after the position. -/
def Position.Before : Position → Datum → Prop
  | .start, _ => True
  | .after l, k => l < k
  | .done, _ => False

namespace Store

/-- The containers of a store by number, as sets and maps. -/
def collections (s : Store) (n : Nat) : Option Collection := s.contents[n]?.map Content.model

/-- The store `s'` has `m` as the container `n`, and is `s` in all else that counts. -/
structure Becomes (s : Store) (n : Nat) (m : Collection) (s' : Store) : Prop where
  collections : s'.collections = Function.update s.collections n (some m)
  wrappers : s'.wrappers = s.wrappers
  cursors : s'.cursors = s.cursors

/-- An operation on the store does what it does on the container `n` alone. -/
inductive Mirrors (s : Store) (n : Nat) :
    Except Refusal (Store × Answer) → Except Refusal (Collection × Answer) → Prop
  | refused (r : Refusal) : Mirrors s n (.error r) (.error r)
  | answered (s' : Store) (m : Collection) (a : Answer) (h : s.Becomes n m s') :
      Mirrors s n (.ok (s', a)) (.ok (m, a))

/-- What an iterator of the container `m` does next. -/
inductive Advances (s : Store) (iterator : String) (cursor : Cursor) (m : Collection) :
    Except Refusal (Store × Answer) → Prop
  | over (h : cursor.position = .done) : Advances s iterator cursor m (.ok (s, .exhausted))
  | exhausted (hp : cursor.position ≠ .done) (h : ∀ k ∈ m.keys, ¬ cursor.position.Before k) :
      Advances s iterator cursor m (.ok ({ s with
        cursors := rebind iterator { cursor with position := .done } s.cursors }, .exhausted))
  | yielded (k : Datum) (v : HostValue) (h : IsLeast {k | k ∈ m.keys ∧ cursor.position.Before k} k)
      (hv : k.toHost cursor.item = .ok v) :
      Advances s iterator cursor m (.ok ({ s with
        cursors := rebind iterator { cursor with position := .after k } s.cursors }, .value v))
  | refused (k : Datum) (f : Fault) (h : IsLeast {k | k ∈ m.keys ∧ cursor.position.Before k} k)
      (hf : k.toHost cursor.item = .error f) : Advances s iterator cursor m (.error (.fault f))

/-- Each storage of the store is one finite set or map, whichever wrapper of it
is used. -/
structure Shared (c : Catalog) (s : Store) : Prop where
  /-- Wrappers of one storage have one type. -/
  type : ∀ i j v w, s.wrappers.lookup i = some v → s.wrappers.lookup j = some w →
    v.storage = w.storage → v.type = w.type
  /-- An operation through a wrapper of a live container answers and changes what
  it does on the set or map. -/
  perform : ∀ op id w, op.subject? = some id → s.wrappers.lookup id = some w →
    s.isLive w.storage = true → ∃ m, s.collections w.storage = some m ∧ m.IsOf w.type ∧
      s.Mirrors w.storage (s.run c op) (m.perform c w op)
  /-- An item that is added again changes nothing. -/
  addAgain : ∀ id v s' a, s.run c (.add id v) = .ok (s', a) → s'.run c (.add id v) = .ok (s', a)
  /-- A wrapper that shares no container starts one that was not there. -/
  start : ∀ id t insertion origin m, origin.start? t = some (.ok m) → ∃ n s',
    s.run c (.create id t insertion origin) = .ok (s', .created t true) ∧
    s.collections n = none ∧
    Becomes { s with wrappers := rebind id ⟨t, insertion, n, true⟩ s.wrappers } n m s'
  /-- One that cannot start is refused. -/
  noStart : ∀ id t insertion origin r, origin.start? t = some (.error r) →
    s.run c (.create id t insertion origin) = .error r
  /-- An alias of a live wrapper has its container. -/
  share : ∀ id source v insertion owns, s.wrappers.lookup source = some v →
    s.isLive v.storage = true →
    s.run c (.create id v.type insertion (.alias source owns)) =
      .ok ({ s with
        wrappers := rebind id ⟨v.type, insertion, v.storage, owns == some true⟩ s.wrappers },
        .created v.type (owns == some true))
  /-- An iterator of a live container starts before its first key. -/
  iterate : ∀ id iterator w, s.wrappers.lookup id = some w → s.isLive w.storage = true →
    s.run c (.iterate id iterator) = .ok ({ s with
      cursors := rebind iterator ⟨w.type.keyType, w.storage, .start⟩ s.cursors }, .done)
  /-- An iterator goes through the keys of the container as it is at each step. -/
  next : ∀ iterator cursor, s.cursors.lookup iterator = some cursor →
    ∃ m, s.collections cursor.storage = some m ∧
      s.Advances iterator cursor m (s.run c (.next iterator))
  /-- No operation changes another container than that of its own wrapper. -/
  frame : ∀ op n m, s.collections n = some m →
    (∀ id w, op.subject? = some id → s.wrappers.lookup id = some w → w.storage ≠ n) →
    (s.step c op).1.collections n = some m

variable {c : Catalog} {s : Store}

/-! ## One container changed -/

theorem collections_setContent {n : Nat} {old : Content} (h : s.contents[n]? = some old)
    (content : Content) :
    (s.setContent n content).collections =
      Function.update s.collections n (some content.model) := by
  funext k
  unfold collections setContent
  by_cases hk : k = n
  · subst hk
    obtain ⟨hlt, -⟩ := List.getElem?_eq_some_iff.mp h
    rw [Function.update_self, List.getElem?_set_self hlt]
    rfl
  · rw [Function.update_of_ne hk, List.getElem?_set_ne (Ne.symm hk)]

theorem becomes_setContent {n : Nat} {old : Content} (h : s.contents[n]? = some old)
    (content : Content) : s.Becomes n content.model (s.setContent n content) :=
  ⟨collections_setContent h content, rfl, rfl⟩

theorem becomes_self {n : Nat} {m : Collection} (h : s.collections n = some m) :
    s.Becomes n m s :=
  ⟨(Function.update_eq_self_iff.mpr h.symm).symm, rfl, rfl⟩

theorem mirrors_bind {α : Type} {n : Nat} {x : Except Refusal α}
    {f : α → Except Refusal (Store × Answer)} {g : α → Except Refusal (Collection × Answer)}
    (h : ∀ a, s.Mirrors n (f a) (g a)) : s.Mirrors n (x >>= f) (x >>= g) := by
  cases x with
  | error r => exact .refused r
  | ok a => exact h a

/-! ## Operations through a wrapper -/

section
variable {id : String} {w : Wrapper} (hw : s.wrappers.lookup id = some w)
  (hl : s.isLive w.storage = true)
  (hc : s.contents[w.storage]? = some (s.contentAt w.storage))
  (hf : (s.contentAt w.storage).Fits w.type)

include hc in
theorem collections_of_wrapper :
    s.collections w.storage = some (s.contentAt w.storage).model := by
  unfold collections
  rw [hc]
  rfl

include hl hc hf in
theorem remove_mirrors (key : HostValue) : s.Mirrors w.storage (s.remove c w key)
    ((s.contentAt w.storage).model.remove c w key) := by
  unfold remove Collection.remove
  rw [content_bind hl]
  refine mirrors_bind fun k? => ?_
  cases k? with
  | none =>
    rw [← Content.size_eq hf]
    exact .answered s _ _ (becomes_self (collections_of_wrapper hc))
  | some k =>
    dsimp only
    rw [← Content.model_erase, ← Content.size_eq (hf.erase k)]
    exact .answered _ _ _ (becomes_setContent hc _)

include hw hl hc hf in
/-- An operation through a wrapper is the one on its set or map. -/
theorem run_perform {op : Operation} (ho : op.subject? = some id) :
    s.Mirrors w.storage (s.run c op) ((s.contentAt w.storage).model.perform c w op) := by
  have hself : s.Becomes w.storage (s.contentAt w.storage).model s :=
    becomes_self (collections_of_wrapper hc)
  cases op with
  | create | drop | dropIterator | owns | iterate | next => cases ho
  | contains i key =>
    cases ho
    rw [run, wrapper_bind hw, content_bind hl, Collection.perform]
    refine mirrors_bind fun k? => ?_
    cases k? with
    | none => exact .answered s _ _ hself
    | some k =>
      dsimp only
      rw [Content.contains_eq]
      exact .answered s _ _ hself
  | size i =>
    cases ho
    rw [run, wrapper_bind hw, content_bind hl, Collection.perform, ← Content.size_eq hf]
    exact .answered s _ _ hself
  | isEmpty i =>
    cases ho
    rw [run, wrapper_bind hw, content_bind hl, Collection.perform, ← Content.size_eq hf]
    exact .answered s _ _ hself
  | toHost i =>
    cases ho
    rw [run, wrapper_bind hw, content_bind hl, Collection.perform, ← Content.datum_eq hf]
    exact mirrors_bind fun v => .answered s _ _ hself
  | add i value =>
    cases ho
    cases ht : w.type with
    | map k v =>
      rw [run, setWrapper_of_map hw ht, Collection.perform, ht]
      exact .refused _
    | set e =>
      rw [run, setWrapper_bind hw ht, Collection.perform, ht]
      dsimp only
      rw [content_bind hl]
      refine mirrors_bind fun _ => mirrors_bind fun x => ?_
      rw [← Content.model_add, ← Content.size_eq (hf.add x)]
      exact .answered _ _ _ (becomes_setContent hc _)
  | discard i value =>
    cases ho
    cases ht : w.type with
    | map k v =>
      rw [run, setWrapper_of_map hw ht, Collection.perform, ht]
      exact .refused _
    | set e =>
      rw [run, setWrapper_bind hw ht, Collection.perform, ht]
      exact remove_mirrors hl hc hf value
  | get i key =>
    cases ho
    cases ht : w.type with
    | set e =>
      rw [run, mapWrapper_of_set hw ht, Collection.perform, ht]
      exact .refused _
    | map k v =>
      rw [run, mapWrapper_bind hw ht, Collection.perform, ht]
      dsimp only
      rw [content_bind hl, show (s.contentAt w.storage).get? =
        (s.contentAt w.storage).model.get? from funext (Content.get?_eq _)]
      refine mirrors_bind fun _ => mirrors_bind fun k? => ?_
      cases k?.bind (s.contentAt w.storage).model.get? with
      | none => exact .refused _
      | some d => exact mirrors_bind fun found => .answered s _ _ hself
  | put i key value =>
    cases ho
    cases ht : w.type with
    | set e =>
      rw [run, mapWrapper_of_set hw ht, Collection.perform, ht]
      exact .refused _
    | map k v =>
      rw [run, mapWrapper_bind hw ht, Collection.perform, ht]
      dsimp only
      rw [content_bind hl]
      refine mirrors_bind fun _ => mirrors_bind fun _ => ?_
      refine mirrors_bind fun x => mirrors_bind fun y => ?_
      rw [← Content.model_put, ← Content.size_eq (hf.put x y)]
      exact .answered _ _ _ (becomes_setContent hc _)
  | delete i key =>
    cases ho
    cases ht : w.type with
    | set e =>
      rw [run, mapWrapper_of_set hw ht, Collection.perform, ht]
      exact .refused _
    | map k v =>
      rw [run, mapWrapper_bind hw ht, Collection.perform, ht]
      exact remove_mirrors hl hc hf key

end

theorem content_add_add (content : Content) (x : Datum) :
    (content.add x).add x = content.add x := by
  cases content with
  | set items => exact congrArg Content.set (Ordered.insert_insert x items)
  | map entries => rfl

/-- Adding an item again answers the same and changes nothing. -/
theorem add_again {types : List WrappedType} (h : Typing types s) {id : String} {value : HostValue}
    {s' : Store} {a : Answer} (hr : s.run c (.add id value) = .ok (s', a)) :
    s'.run c (.add id value) = .ok (s', a) := by
  obtain ⟨⟨w, e⟩, hw, hr⟩ := bind_eq_ok hr
  obtain ⟨hw, ht⟩ := setWrapper_eq_ok hw
  obtain ⟨content, hcontent, hr⟩ := bind_eq_ok hr
  obtain ⟨hl, rfl⟩ := content_eq_ok hcontent
  obtain ⟨⟨⟩, hi, hr⟩ := bind_eq_ok hr
  obtain ⟨x, hx, hr⟩ := bind_eq_ok hr
  cases hr
  obtain ⟨hc, -⟩ := h.contentAt (h.lookup hw)
  obtain ⟨hlt, -⟩ := List.getElem?_eq_some_iff.mp hc
  let content := (s.contentAt w.storage).add x
  let s' := s.setContent w.storage content
  have hat : s'.contentAt w.storage = content := by
    show (s.contents.set w.storage content)[w.storage]?.getD _ = content
    rw [List.getElem?_set_self hlt]
    rfl
  have hset : s'.setContent w.storage content = s' := by
    show { s with contents := (s.contents.set w.storage content).set w.storage content } = s'
    rw [List.set_set]
    rfl
  show s'.run c (.add id value) = .ok (s', .count content.size)
  have hw' : s'.wrappers.lookup id = some w := hw
  rw [run, setWrapper_bind hw' ht]
  dsimp only
  rw [content_bind (s := s') hl, hi, hx, hat]
  show Except.ok (s'.setContent w.storage (content.add x), Answer.count (content.add x).size) = _
  rw [content_add_add, hset]

/-! ## New wrappers -/

theorem collections_concat (content : Content) (wrappers : List (String × Wrapper)) :
    Becomes { s with wrappers } s.contents.length content.model
      { s with contents := s.contents ++ [content], wrappers } := by
  refine ⟨?_, rfl, rfl⟩
  funext n
  unfold collections
  dsimp only
  rcases Nat.lt_trichotomy n s.contents.length with hn | rfl | hn
  · rw [Function.update_of_ne (ne_of_lt hn), List.getElem?_append_left hn]
  · rw [Function.update_self, List.getElem?_concat_length]
    rfl
  · have hlong : (s.contents ++ [content]).length ≤ n := by
      simp only [List.length_append]
      exact hn
    rw [Function.update_of_ne (ne_of_gt hn), List.getElem?_eq_none hlong,
      List.getElem?_eq_none (by omega)]

theorem collections_length : s.collections s.contents.length = none := by
  unfold collections
  rw [List.getElem?_eq_none (le_refl _)]
  rfl

section
variable {id : String} {t : WrappedType} {insertion : Insertion} {origin : Origin}

theorem run_start {m : Collection} (h : origin.start? t = some (.ok m)) : ∃ n s',
    s.run c (.create id t insertion origin) = .ok (s', .created t true) ∧
    s.collections n = none ∧
    Becomes { s with wrappers := rebind id ⟨t, insertion, n, true⟩ s.wrappers } n m s' := by
  have hfresh : ∀ content : Content, content.model = m →
      s.build c t insertion origin = .ok (⟨t, insertion, s.contents.length, true⟩,
        { s with contents := s.contents ++ [content] }) → ∃ n s',
      s.run c (.create id t insertion origin) = .ok (s', .created t true) ∧
      s.collections n = none ∧
      Becomes { s with wrappers := rebind id ⟨t, insertion, n, true⟩ s.wrappers } n m s' := by
    rintro content rfl hb
    refine ⟨_, _, ?_, collections_length, collections_concat content _⟩
    rw [run, hb]
    rfl
  cases origin with
  | empty =>
    obtain ⟨t', ht, hm⟩ := bind_eq_ok (Option.some.inj h)
    obtain ⟨rfl, -⟩ := checked_eq_ok ht
    cases hm
    refine hfresh _ (Content.model_empty t') ?_
    rw [build, ht]
    rfl
  | host v =>
    obtain ⟨t', ht, hm⟩ := bind_eq_ok (Option.some.inj h)
    obtain ⟨rfl, -⟩ := checked_eq_ok ht
    have hm := refuse_eq_ok hm
    rw [← Content.model_ofHost] at hm
    cases hc : Content.ofHost t' v with
    | error f =>
      rw [hc] at hm
      cases hm
    | ok content =>
      rw [hc] at hm
      refine hfresh content (Except.ok.inj hm) ?_
      rw [build, ht]
      show refuse (Content.ofHost t' v) >>= _ = _
      rw [hc]
      rfl
  | «alias» source owns => cases h

theorem run_noStart {r : Refusal} (h : origin.start? t = some (.error r)) :
    s.run c (.create id t insertion origin) = .error r := by
  cases origin with
  | empty =>
    rcases bind_eq_error (Option.some.inj h) with ht | ⟨t', -, hm⟩
    · rw [run, build, ht]
      rfl
    · cases hm
  | host v =>
    rcases bind_eq_error (Option.some.inj h) with ht | ⟨t', ht, hm⟩
    · rw [run, build, ht]
      rfl
    · rw [← Content.model_ofHost] at hm
      cases hc : Content.ofHost t' v with
      | error f =>
        rw [hc] at hm
        cases hm
        rw [run, build, ht]
        show (refuse (Content.ofHost t' v) >>= _) >>= _ = _
        rw [hc]
        rfl
      | ok content =>
        rw [hc] at hm
        cases hm
  | «alias» source owns => cases h

end

/-! ## Iterators -/

/-- The step of an iterator that looks for a key after `last`. -/
theorem advances {iterator : String} {cursor : Cursor} {t : WrappedType} (last : Option Datum)
    (hf : (s.contentAt cursor.storage).Fits t)
    (hp : cursor.position ≠ .done)
    (hlast : ∀ k, cursor.position.Before k ↔ ∀ l ∈ last, l < k) :
    s.Advances iterator cursor (s.contentAt cursor.storage).model
      (match Ordered.firstAfter id last (s.contentAt cursor.storage).keys with
      | none => .ok ({ s with
          cursors := rebind iterator { cursor with position := .done } s.cursors }, .exhausted)
      | some key => do
        let v ← refuse (key.toHost cursor.item)
        return ({ s with
          cursors := rebind iterator { cursor with position := .after key } s.cursors },
          .value v)) := by
  have hkeys : ∀ k, k ∈ (s.contentAt cursor.storage).model.keys ↔
      k ∈ (s.contentAt cursor.storage).keys := by
    intro k
    rw [Content.keys_model, List.mem_toFinset]
  cases hk : Ordered.firstAfter id last (s.contentAt cursor.storage).keys with
  | none =>
    refine .exhausted hp fun k hm => ?_
    rw [hlast]
    exact Ordered.forall_not_of_firstAfter hk k ((hkeys k).mp hm)
  | some k =>
    have hleast : IsLeast {k | k ∈ (s.contentAt cursor.storage).model.keys ∧
        cursor.position.Before k} k := by
      simp only [hkeys, hlast]
      exact Ordered.isLeast_of_firstAfter hf.sorted hk
    cases hv : k.toHost cursor.item with
    | error f =>
      dsimp only
      rw [hv]
      exact .refused k f hleast hv
    | ok v =>
      dsimp only
      rw [hv]
      exact .yielded k v hleast hv

theorem run_next {types : List WrappedType} (h : Typing types s) {iterator : String}
    {cursor : Cursor} (hcursor : s.cursors.lookup iterator = some cursor) :
    ∃ m, s.collections cursor.storage = some m ∧
      s.Advances iterator cursor m (s.run c (.next iterator)) := by
  obtain ⟨t, ht, -⟩ := h.cursors _ (mem_of_lookup hcursor)
  obtain ⟨hc, hf⟩ := h.contentAt ht
  refine ⟨(s.contentAt cursor.storage).model, ?_, ?_⟩
  · unfold collections
    rw [hc]
    rfl
  rw [run, hcursor]
  dsimp only
  cases hp : cursor.position with
  | start =>
    refine advances none hf ?_ fun k => ?_
    · simp [hp]
    · simp [hp, Position.Before]
  | after l =>
    refine advances (some l) hf ?_ fun k => ?_
    · simp [hp]
    · simp [hp, Position.Before]
  | done => exact .over hp

/-! ## Every run -/

theorem frame {types : List WrappedType} (h : Typing types s) {op : Operation} {n : Nat}
    {m : Collection} (hm : s.collections n = some m)
    (ho : ∀ id w, op.subject? = some id → s.wrappers.lookup id = some w → w.storage ≠ n) :
    (s.step c op).1.collections n = some m := by
  have hset : ∀ id w content, op.subject? = some id → s.wrappers.lookup id = some w →
      (s.setContent w.storage content).collections n = some m := by
    intro id w content hid hw
    obtain ⟨hc, -⟩ := h.contentAt (h.lookup hw)
    rw [collections_setContent hc, Function.update_of_ne (ho id w hid hw).symm, hm]
  have he := step_effect c s op
  generalize (s.step c op).1 = s' at he ⊢
  cases he with
  | same => exact hm
  | fresh id w content =>
    have hn : n ≠ s.contents.length := by
      rintro rfl
      rw [collections_length] at hm
      cases hm
    rw [(collections_concat (s := s) content (rebind id w s.wrappers)).collections,
      Function.update_of_ne hn]
    exact hm
  | shared id source v w => exact hm
  | dropped id => exact hm
  | closed iterator => exact hm
  | erased id w k hw hl hid => exact hset id w _ hid hw
  | added id w e v x hw => exact hset id w _ rfl hw
  | put id w k t key value x y hw => exact hset id w _ rfl hw
  | opened id iterator w => exact hm
  | moved iterator cursor p => exact hm

/-- After any operations each storage is one finite set or map. -/
theorem shared_collections (c : Catalog) (ops : List Operation) :
    Shared c (empty.after c ops) := by
  obtain ⟨types, h⟩ := typing_after c ops
  have hkey : ∀ {id w}, (empty.after c ops).wrappers.lookup id = some w →
      w.type.keyType.isKey = true := fun hw => h.keys _ (List.mem_of_getElem? (h.lookup hw))
  refine ⟨?type, ?perform, fun _ _ _ _ => add_again h, fun _ _ _ _ _ => run_start,
    fun _ _ _ _ _ => run_noStart, ?share, ?iterate, fun _ _ => run_next h, ?frame⟩
  case type =>
    intro i j v w hv hw hs
    have hv := h.lookup hv
    rw [hs, h.lookup hw] at hv
    exact (Option.some.inj hv).symm
  case perform =>
    intro op id w ho hw hl
    obtain ⟨hc, hf⟩ := h.contentAt (h.lookup hw)
    exact ⟨_, collections_of_wrapper hc, hf.isOf, run_perform hw hl hc hf ho⟩
  case share =>
    intro id source v insertion owns hv hl
    rw [run, build_alias hv (hkey hv), content_bind hl]
    rfl
  case iterate =>
    intro id iterator w hw hl
    rw [run, wrapper_bind hw, content_bind hl]
    rfl
  case frame =>
    intro op n m hm ho
    exact frame h hm ho

/-- What an alias puts in, the owner finds. -/
example : ((empty.after .builtin
    [.create "m" (.map (.primitive .int32) (.primitive .int32)) .permissive .empty,
     .create "a" (.map (.primitive .int32) (.primitive .int32)) .permissive (.alias "m" none),
     .put "a" (.int 1) (.int 2)]).step .builtin (.get "m" (.int 1))).2 = .value (.int 2) := rfl

end Store

end WrapGen
