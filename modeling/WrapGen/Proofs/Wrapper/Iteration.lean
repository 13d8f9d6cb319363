import WrapGen.Proofs.Wrapper.Refinement
import WrapGen.Proofs.Wrapper.Typed

/-!
# Iteration while storage changes

An iterator keeps the key that it came to last and looks for the next one in the
container as it is then. `Walk` is a run of operations as such an iterator sees
it: what other operations do to the container is left open, and each step of the
iterator goes to the least key ahead of it or, where there is none, ends it for
good. `walk` is the invariant: every run that leaves the name of the iterator
alone is a walk. What an iterator gives is then proved by induction on walks.

* `iteration_exact`: the keys rise, each is there when the iterator comes to it,
  none that stays there is left out, and an iterator that has ended stays ended.
-/
namespace WrapGen

namespace Operation

variable (iterator : String)

/-- Whether an operation is a step of an iterator. -/
def advances : Operation → Bool
  | .next i => i == iterator
  | _ => false

/-- Whether an operation binds or unbinds the name of an iterator. -/
def resets : Operation → Bool
  | .iterate _ i | .dropIterator i => i == iterator
  | _ => false

variable {iterator}

theorem eq_next_of_advances {op : Operation} (h : op.advances iterator = true) :
    op = .next iterator := by
  cases op with
  | next i =>
    rw [beq_iff_eq.mp h]
  | _ => cases h

@[simp] theorem advances_next : (next iterator).advances iterator = true :=
  beq_self_eq_true iterator

end Operation

theorem Position.Before.trans {p : Position} {k l : Datum} (hk : p.Before k) (h : k < l) :
    p.Before l := by
  cases p with
  | start => trivial
  | after m => exact lt_trans (a := m) hk h
  | done => exact hk

theorem lookup_unbind_of_ne {α : Type} {table : List (String × α)} {id other : String}
    (h : other ≠ id) : (unbind id table).lookup other = table.lookup other := by
  induction table with
  | nil => rfl
  | cons row rest ih =>
    obtain ⟨k, y⟩ := row
    by_cases hk : k = id
    · subst hk
      have hother : (other == k) = false := beq_eq_false_iff_ne.mpr h
      rw [List.lookup_cons, hother, ← ih]
      simp [unbind]
    · rw [List.lookup_cons, ← ih]
      simp [unbind, hk, List.lookup_cons]

namespace Store

/-- A step of an iterator that gives a value. -/
structure Visit where
  /-- The store before the step. -/
  store : Store
  /-- The key that the iterator comes to. -/
  key : Datum
  value : HostValue

section
variable (c : Catalog) (iterator : String)

/-- What the next step of an iterator visits, if it gives a value. -/
def visit? (s : Store) : Option Visit :=
  match s.step c (.next iterator) with
  | (s', .value v) =>
    match (s'.cursors.lookup iterator).map Cursor.position with
    | some (.after k) => some ⟨s, k, v⟩
    | _ => none
  | _ => none

/-- What an iterator visits during operations. -/
def visits : Store → List Operation → List Visit
  | _, [] => []
  | s, op :: ops =>
    let rest := visits (s.step c op).1 ops
    if op.advances iterator then (visit? c iterator s).toList ++ rest else rest

/-- What the steps of an iterator answer during operations. -/
def replies : Store → List Operation → List Answer
  | _, [] => []
  | s, op :: ops =>
    let rest := replies (s.step c op).1 ops
    if op.advances iterator then (s.step c op).2 :: rest else rest

/-- A run of operations from a store as an iterator of the container `n` sees it
that is at a position; its keys are of the type `item`. -/
inductive Walk (n : Nat) (item : ElementType) : Store → Position → List Operation → Prop
  | stop {s : Store} {p : Position} : Walk n item s p []
  | other {s : Store} {p : Position} {op : Operation} {ops : List Operation}
      (ho : op.advances iterator = false) (h : Walk n item (s.step c op).1 p ops) :
      Walk n item s p (op :: ops)
  | ended {s : Store} {p : Position} {ops : List Operation}
      (ha : (s.step c (.next iterator)).2 = .exhausted) (hv : visit? c iterator s = none)
      (hk : ∀ k ∈ (s.contentAt n).keys, ¬ p.Before k)
      (h : Walk n item (s.step c (.next iterator)).1 .done ops) :
      Walk n item s p (.next iterator :: ops)
  | yielded {s : Store} {p : Position} {ops : List Operation} (k : Datum) (v : HostValue)
      (ha : (s.step c (.next iterator)).2 = .value v)
      (hv : visit? c iterator s = some ⟨s, k, v⟩)
      (hk : IsLeast {k | k ∈ (s.contentAt n).keys ∧ p.Before k} k)
      (hvalue : k.toHost item = .ok v)
      (h : Walk n item (s.step c (.next iterator)).1 (.after k) ops) :
      Walk n item s p (.next iterator :: ops)

/-- What an iterator over the container `n` gives during operations. -/
structure Exact (n : Nat) (item : ElementType) (s : Store) (ops : List Operation) : Prop where
  /-- The steps give the values that are visited, and after the last only that the
  iterator is exhausted. -/
  replies : ∃ rest, replies c iterator s ops =
    (visits c iterator s ops).map (fun v => .value v.value) ++ List.replicate rest .exhausted
  /-- The keys rise. -/
  rising : ((visits c iterator s ops).map Visit.key).Pairwise (· < ·)
  /-- Each key is in the container when the iterator comes to it, and the value is
  the one that it is converted to. -/
  present : ∀ v ∈ visits c iterator s ops,
    v.key ∈ (v.store.contentAt n).keys ∧ v.key.toHost item = .ok v.value
  /-- A key that is in the container all the time before a step that finds the
  iterator exhausted is visited once. -/
  complete : ∀ pre post, ops = pre ++ .next iterator :: post →
    ((s.after c pre).step c (.next iterator)).2 = .exhausted →
    ∀ k, (∀ past, past <+: pre → k ∈ ((s.after c past).contentAt n).keys) →
      ((visits c iterator s ops).map Visit.key).count k = 1
  /-- If the keys of the container stay as they are, they are visited one after the
  other. -/
  unchanged : ∀ keys, (∀ past, past <+: ops → ((s.after c past).contentAt n).keys = keys) →
    (visits c iterator s ops).map Visit.key = keys.take (ops.countP (·.advances iterator))

end

variable {c : Catalog} {iterator : String} {n : Nat} {item : ElementType} {s : Store}
  {p : Position} {op : Operation} {ops : List Operation}

/-! ## Steps -/

theorem visits_cons_of_not_advances (ho : op.advances iterator = false) :
    visits c iterator s (op :: ops) = visits c iterator (s.step c op).1 ops := by
  rw [visits, if_neg (Bool.eq_false_iff.mp ho)]

theorem visits_cons_next : visits c iterator s (.next iterator :: ops) =
    (visit? c iterator s).toList ++ visits c iterator (s.step c (.next iterator)).1 ops := by
  rw [visits, if_pos Operation.advances_next]

theorem replies_cons_of_not_advances (ho : op.advances iterator = false) :
    replies c iterator s (op :: ops) = replies c iterator (s.step c op).1 ops := by
  rw [replies, if_neg (Bool.eq_false_iff.mp ho)]

theorem replies_cons_next : replies c iterator s (.next iterator :: ops) =
    (s.step c (.next iterator)).2 :: replies c iterator (s.step c (.next iterator)).1 ops := by
  rw [replies, if_pos Operation.advances_next]

/-- An operation that is not about an iterator leaves it where it is. -/
theorem lookup_of_other {cursor : Cursor} (hc : s.cursors.lookup iterator = some cursor)
    (ho : op.advances iterator = false) (hr : op.resets iterator = false) :
    (s.step c op).1.cursors.lookup iterator = some cursor := by
  have he := step_effect c s op
  generalize (s.step c op).1 = s' at he ⊢
  cases he with
  | same | fresh | shared | dropped | erased | added | put => exact hc
  | closed i =>
    have hne : iterator ≠ i := fun he => by simp [Operation.resets, he] at hr
    exact (lookup_unbind_of_ne hne).trans hc
  | opened id i w =>
    have hne : iterator ≠ i := fun he => by simp [Operation.resets, he] at hr
    exact (lookup_rebind_of_ne hne).trans hc
  | moved i other q =>
    have hne : iterator ≠ i := fun he => by simp [Operation.advances, he] at ho
    exact (lookup_rebind_of_ne hne).trans hc

theorem WellTyped.step {types : List WrappedType} (h : WellTyped types s) (c : Catalog)
    (op : Operation) : ∃ types, WellTyped types (s.step c op).1 :=
  h.effect (step_effect c s op)

/-- The key that an iterator comes to is looked up in its container as it is. -/
theorem mem_keys_iff {m : Collection} (hm : s.collections n = some m) {k : Datum} :
    k ∈ m.keys ↔ k ∈ (s.contentAt n).keys := by
  obtain ⟨content, hcontent, rfl⟩ := Option.map_eq_some_iff.mp hm
  rw [Content.keys_model, List.mem_toFinset, contentAt, hcontent]
  rfl

/-- A run that leaves the name of a bound iterator alone is a walk from its position. -/
theorem walk : ∀ {ops : List Operation} {s : Store} {p : Position} {types : List WrappedType},
    WellTyped types s → s.cursors.lookup iterator = some ⟨item, n, p⟩ →
    (∀ op ∈ ops, op.resets iterator = false) → Walk c iterator n item s p ops
  | [], _, _, _, _, _, _ => .stop
  | op :: ops, s, p, types, h, hc, hr => by
    obtain ⟨hop, hops⟩ := List.forall_mem_cons.mp hr
    obtain ⟨types', h'⟩ := h.step c op
    cases ho : op.advances iterator with
    | false => exact .other ho (walk h' (lookup_of_other hc ho hop) hops)
    | true =>
      obtain rfl := Operation.eq_next_of_advances ho
      obtain ⟨m, hm, hadv⟩ := run_next (c := c) h.toTyping hc
      obtain ⟨result, hok⟩ := h.next c hc
      have hstep : s.step c (.next iterator) = result := by
        rw [Store.step, hok]
      rw [hok] at hadv
      rw [hstep] at h'
      cases hadv with
      | «over» hp =>
        have hp : p = .done := hp
        refine .ended (by rw [hstep]) (by rw [visit?, hstep]) (fun k _ => ?_) ?_
        · rw [hp]
          exact id
        · rw [hstep]
          exact walk h' (by rw [hc, hp]) hops
      | exhausted hp hnone =>
        refine .ended (by rw [hstep]) (by rw [visit?, hstep])
          (fun k hk => hnone k ((mem_keys_iff hm).mpr hk)) ?_
        rw [hstep]
        exact walk h' lookup_rebind_self hops
      | yielded k v hleast hv =>
        simp only [mem_keys_iff hm] at hleast
        have hvisit : visit? c iterator s = some ⟨s, k, v⟩ := by
          rw [visit?, hstep]
          dsimp only
          rw [lookup_rebind_self]
          rfl
        refine .yielded k v (by rw [hstep]) hvisit hleast hv ?_
        rw [hstep]
        exact walk h' lookup_rebind_self hops

/-! ## Walks -/

namespace Walk

variable (h : Walk c iterator n item s p ops)
include h

/-- An iterator never goes back. -/
theorem before : ∀ v ∈ visits c iterator s ops, p.Before v.key := by
  induction h with
  | stop => simp [visits]
  | other ho _ ih => rwa [visits_cons_of_not_advances ho]
  | ended _ hv _ _ ih =>
    rw [visits_cons_next, hv]
    exact fun v hm => (ih v hm).elim
  | yielded k v _ hv hk _ _ ih =>
    rw [visits_cons_next, hv]
    refine List.forall_mem_cons.mpr ⟨hk.1.2, fun u hu => ?_⟩
    exact hk.1.2.trans (ih u hu)

theorem rising : ((visits c iterator s ops).map Visit.key).Pairwise (· < ·) := by
  induction h with
  | stop => simp [visits]
  | other ho _ ih => rwa [visits_cons_of_not_advances ho]
  | ended _ hv _ _ ih =>
    rw [visits_cons_next, hv]
    exact ih
  | yielded k v _ hv _ _ hrest ih =>
    rw [visits_cons_next, hv]
    refine List.pairwise_cons.mpr ⟨fun l hl => ?_, ih⟩
    obtain ⟨u, hu, rfl⟩ := List.mem_map.mp hl
    exact hrest.before u hu

theorem present : ∀ v ∈ visits c iterator s ops,
    v.key ∈ (v.store.contentAt n).keys ∧ v.key.toHost item = .ok v.value := by
  induction h with
  | stop => simp [visits]
  | other ho _ ih => rwa [visits_cons_of_not_advances ho]
  | ended _ hv _ _ ih => rwa [visits_cons_next, hv]
  | yielded k v _ hv hk hvalue _ ih =>
    rw [visits_cons_next, hv]
    exact List.forall_mem_cons.mpr ⟨⟨hk.1.1, hvalue⟩, ih⟩

/-- An iterator that has ended visits nothing. -/
theorem visits_of_done (hp : p = .done) : visits c iterator s ops = [] := by
  refine List.eq_nil_iff_forall_not_mem.mpr fun v hv => ?_
  have hb := h.before v hv
  rw [hp] at hb
  exact hb

theorem replies : ∃ rest, Store.replies c iterator s ops =
    (visits c iterator s ops).map (fun v => .value v.value) ++ List.replicate rest .exhausted := by
  induction h with
  | stop => exact ⟨0, rfl⟩
  | other ho _ ih =>
    rw [visits_cons_of_not_advances ho, replies_cons_of_not_advances ho]
    exact ih
  | ended ha hv _ hrest ih =>
    obtain ⟨rest, ih⟩ := ih
    refine ⟨rest + 1, ?_⟩
    rw [visits_cons_next, hv, replies_cons_next, ha, ih, hrest.visits_of_done rfl]
    rfl
  | yielded k v ha hv _ _ _ ih =>
    obtain ⟨rest, ih⟩ := ih
    refine ⟨rest, ?_⟩
    rw [visits_cons_next, hv, replies_cons_next, ha, ih]
    rfl

/-- No key ahead that stays in the container is left out. -/
theorem mem_visits {k : Datum} {pre post : List Operation}
    (hops : ops = pre ++ .next iterator :: post)
    (ha : ((s.after c pre).step c (.next iterator)).2 = .exhausted) (hp : p.Before k)
    (hk : ∀ past, past <+: pre → k ∈ ((s.after c past).contentAt n).keys) :
    k ∈ (visits c iterator s ops).map Visit.key := by
  induction h generalizing pre with
  | stop => simp at hops
  | @other s p op ops ho _ ih =>
    rw [visits_cons_of_not_advances ho]
    cases pre with
    | nil =>
      obtain ⟨rfl, -⟩ := List.cons.inj hops
      rw [Operation.advances_next] at ho
      cases ho
    | cons first pre =>
      obtain ⟨rfl, rfl⟩ := List.cons.inj hops
      exact ih rfl ha hp fun past hpast =>
        hk (op :: past) ((List.prefix_cons_inj op).mpr hpast)
  | ended _ _ hnone => exact absurd hp (hnone k (hk [] (List.nil_prefix)))
  | @yielded s p ops l v hvalue hv hl _ _ ih =>
    rw [visits_cons_next, hv]
    cases pre with
    | nil =>
      rw [show s.after c [] = s from rfl, hvalue] at ha
      cases ha
    | cons first pre =>
      obtain ⟨rfl, rfl⟩ := List.cons.inj hops
      have hle : l ≤ k := hl.2 ⟨hk [] List.nil_prefix, hp⟩
      rcases eq_or_lt_of_le hle with rfl | hlt
      · exact List.mem_cons_self
      · refine List.mem_cons_of_mem l (ih rfl ha hlt fun past hpast => ?_)
        exact hk (.next iterator :: past) ((List.prefix_cons_inj _).mpr hpast)

/-- In a container whose keys stay the same an iterator visits those ahead of it
one after the other. -/
theorem visits_of_unchanged {keys ahead : List Datum}
    (hkeys : ∀ past, past <+: ops → ((s.after c past).contentAt n).keys = keys)
    (hs : ahead.Pairwise (· < ·)) (hahead : ∀ k, k ∈ ahead ↔ k ∈ keys ∧ p.Before k) :
    (visits c iterator s ops).map Visit.key = ahead.take (ops.countP (·.advances iterator)) := by
  induction h generalizing ahead with
  | stop => simp [visits]
  | @other s p op ops ho _ ih =>
    rw [visits_cons_of_not_advances ho, List.countP_cons_of_neg (by simp [ho])]
    exact ih (fun past hpast => hkeys (op :: past) ((List.prefix_cons_inj op).mpr hpast)) hs hahead
  | @ended s p ops _ hv hnone hrest ih =>
    have hnow : (s.contentAt n).keys = keys := hkeys [] List.nil_prefix
    have hnil : ahead = [] := by
      refine List.eq_nil_iff_forall_not_mem.mpr fun k hk => ?_
      obtain ⟨hm, hb⟩ := (hahead k).mp hk
      exact hnone k (hnow ▸ hm) hb
    rw [visits_cons_next, hv, hrest.visits_of_done rfl, hnil]
    simp
  | @yielded s p ops l v _ hv hl _ _ ih =>
    have hnow : (s.contentAt n).keys = keys := hkeys [] List.nil_prefix
    rw [hnow] at hl
    obtain ⟨k, rest, rfl⟩ := List.exists_cons_of_ne_nil
      (List.ne_nil_of_mem ((hahead l).mpr hl.1))
    obtain ⟨hfirst, hrest⟩ := List.pairwise_cons.mp hs
    -- The least key ahead is the first of those that are listed in order.
    obtain rfl : l = k := by
      have hle : l ≤ k := hl.2 ((hahead k).mp List.mem_cons_self)
      rcases List.mem_cons.mp ((hahead l).mpr hl.1) with he | hm
      · exact he
      · exact absurd (hfirst l hm) (not_lt_of_ge hle)
    have hafter : ∀ m, m ∈ rest ↔ m ∈ keys ∧ l < m := by
      intro m
      constructor
      · intro hm
        exact ⟨((hahead m).mp (List.mem_cons_of_mem l hm)).1, hfirst m hm⟩
      · rintro ⟨hm, hlt⟩
        rcases List.mem_cons.mp ((hahead m).mpr ⟨hm, hl.1.2.trans hlt⟩) with rfl | hm
        · exact absurd hlt (lt_irrefl _)
        · exact hm
    rw [visits_cons_next, hv, List.countP_cons_of_pos Operation.advances_next, List.take_succ_cons]
    refine congrArg (l :: ·) (ih (fun past hpast => ?_) hrest hafter)
    exact hkeys (.next iterator :: past) ((List.prefix_cons_inj _).mpr hpast)

/-- What an iterator gives that is at its start. -/
theorem exact (hp : p = .start) (hsorted : Ordered.Sorted id (s.contentAt n).keys) :
    Exact c iterator n item s ops where
  replies := h.replies
  rising := h.rising
  present := h.present
  complete := by
    intro pre post hops ha k hk
    have hnodup : ((visits c iterator s ops).map Visit.key).Nodup := h.rising.imp ne_of_lt
    refine List.count_eq_one_of_mem hnodup (h.mem_visits hops ha ?_ hk)
    rw [hp]
    trivial
  unchanged := by
    intro keys hkeys
    have hnow : (s.contentAt n).keys = keys := hkeys [] List.nil_prefix
    refine h.visits_of_unchanged hkeys (hnow ▸ hsorted) fun k => ?_
    simp [hp, Position.Before]

end Walk

/-! ## Every run -/

/-- After any operations an iterator of a live container gives, during any others
that leave its name alone: keys that rise, each of which is in the container when
the iterator comes to it; each key that is there from the start until the
iterator is exhausted, once; and nothing from then on. Of a container whose keys
stay the same it gives these, one after the other. -/
theorem iteration_exact (c : Catalog) (before ops : List Operation) (id iterator : String)
    (w : Wrapper) (hw : (empty.after c before).wrappers.lookup id = some w)
    (hl : (empty.after c before).isLive w.storage = true)
    (hr : ∀ op ∈ ops, op.resets iterator = false) :
    Exact c iterator w.storage w.type.keyType
      ((empty.after c before).step c (.iterate id iterator)).1 ops := by
  obtain ⟨types, h⟩ := wellTyped_after c before
  have hstart : (empty.after c before).run c (.iterate id iterator) =
      .ok ({ empty.after c before with
        cursors := rebind iterator ⟨w.type.keyType, w.storage, .start⟩
          (empty.after c before).cursors }, .done) :=
    (shared_collections c before).iterate id iterator w hw hl
  obtain ⟨types', h'⟩ := h.step c (.iterate id iterator)
  obtain ⟨hc, hf⟩ := h.toTyping.contentAt (h.lookup hw)
  rw [step, hstart] at h' ⊢
  exact (walk h' lookup_rebind_self hr).exact rfl hf.sorted

/-- A set that loses the key that its iterator came to last and the last key, and
gains keys before the iterator, ahead of it and after its end. -/
theorem iteration_exact_changed :
    let before : List Operation :=
      [.create "s" (.set (.primitive .int32)) .permissive (.host (.list [.int 3, .int 1, .int 9])),
       .create "a" (.set (.primitive .int32)) .permissive (.alias "s" none)]
    let ops : List Operation :=
      [.next "i", .discard "a" (.int 1), .add "s" (.int 0), .add "a" (.int 4), .next "i",
       .discard "s" (.int 9), .next "i", .next "i", .add "s" (.int 12), .next "i"]
    let s := ((empty.after .builtin before).step .builtin (.iterate "a" "i")).1
    Exact .builtin "i" 0 (.primitive .int32) s ops ∧
      (visits .builtin "i" s ops).map (fun v => some v.key) =
        [1, 3, 4].map fun n => (IntegerKind.int32.ofInt? n).map (Datum.integer .int32) := by
  intro before ops s
  let w : Wrapper := ⟨.set (.primitive .int32), .permissive, 0, false⟩
  exact ⟨iteration_exact .builtin before ops "a" "i" w rfl rfl (by decide), by decide +kernel⟩

end Store

end WrapGen
