import WrapGen.Proofs.Scenario.Basic
import WrapGen.Proofs.Value.Matching
import WrapGen.Proofs.Wrapper.Live
import WrapGen.Proofs.Wrapper.Refinement

/-!
# The container behind a test

What a test knows about the store: an owner and aliases are bound to wrappers of
one container, which is a given finite set or map (`Shows`). An operation through
any of these names is the one on the set or map, so its answer can be told from
the set or map alone, and the store goes on to show what the operation leaves.

* `Shows.answered`, `Shows.refused`: operations of wrappers.
* `shows_start`, `Shows.alias`: new wrappers.
* `performs_*`: what the operations of tests do to a set or map.
-/
namespace WrapGen.Scenario

open Store Catalog

variable {c : Subject} {owner id : String} {aliases : List String} {m m' : Collection} {n : Nat}
  {s : Store} {op : Operation} {a : Answer}

theorem typing_step {s' : Store} (h : ∃ types, Typing types s)
    (hstep : s.step builtin op = (s', a)) : ∃ types, Typing types s' := by
  obtain ⟨types, htypes⟩ := h
  have heffect := step_effect builtin s op
  rw [hstep] at heffect
  exact htypes.effect heffect

/-- The names are wrappers of the container `n`, which is `m`. -/
structure Shows (c : Subject) (owner : String) (aliases : List String) (m : Collection) (n : Nat)
    (s : Store) : Prop where
  typing : ∃ types, Typing types s
  owner : s.wrappers.lookup owner = some ⟨c.type, c.insertion, n, true⟩
  aliases : ∀ id ∈ aliases, s.wrappers.lookup id = some ⟨c.type, c.insertion, n, false⟩
  collection : s.collections n = some m

namespace Shows

theorem lookup (h : Shows c owner aliases m n s) (hid : id ∈ owner :: aliases) :
    ∃ owns, s.wrappers.lookup id = some ⟨c.type, c.insertion, n, owns⟩ := by
  rcases List.mem_cons.mp hid with rfl | hid
  · exact ⟨true, h.owner⟩
  · exact ⟨false, h.aliases id hid⟩

theorem isLive (h : Shows c owner aliases m n s) : s.isLive n = true := by
  unfold Store.isLive
  rw [Bool.or_eq_true, List.any_eq_true]
  exact Or.inl ⟨_, mem_of_lookup h.owner, by simp⟩

/-- The keys of the container are ordered primitives. -/
theorem isKey (h : Shows c owner aliases m n s) : c.type.keyType.isKey = true := by
  obtain ⟨types, htypes⟩ := h.typing
  exact htypes.keys _ (List.mem_of_getElem? (htypes.lookup h.owner))

/-- The content of the container fits its type and is `m` without its order. -/
theorem content (h : Shows c owner aliases m n s) :
    s.contents[n]? = some (s.contentAt n) ∧ (s.contentAt n).Fits c.type ∧
      (s.contentAt n).model = m := by
  obtain ⟨types, htypes⟩ := h.typing
  obtain ⟨hc, hf⟩ := htypes.contentAt (htypes.lookup h.owner)
  have hmodel : s.collections n = some (s.contentAt n).model :=
    collections_of_wrapper (w := ⟨c.type, c.insertion, n, true⟩) hc
  exact ⟨hc, hf, Option.some.inj (hmodel.symm.trans h.collection)⟩

/-- A step that leaves wrappers and contents alone is not seen. -/
theorem of_step {s' : Store} (h : Shows c owner aliases m n s)
    (hstep : s.step builtin op = (s', a)) (hwrappers : s'.wrappers = s.wrappers)
    (hcontents : s'.contents = s.contents) : Shows c owner aliases m n s' := by
  refine ⟨typing_step h.typing hstep, ?_, ?_, ?_⟩
  · rw [hwrappers]
    exact h.owner
  · rw [hwrappers]
    exact h.aliases
  · rw [collections, hcontents]
    exact h.collection

/-- An operation through one of the names is the one on the set or map. -/
theorem mirrors (h : Shows c owner aliases m n s) (hid : id ∈ owner :: aliases)
    (ho : op.subject? = some id) :
    ∃ w : Wrapper, w.type = c.type ∧ w.insertion = c.insertion ∧
      s.Mirrors n (s.run builtin op) (m.perform builtin w op) := by
  obtain ⟨owns, hw⟩ := h.lookup hid
  obtain ⟨hc, hf, hm⟩ := h.content
  refine ⟨⟨c.type, c.insertion, n, owns⟩, rfl, rfl, ?_⟩
  rw [← hm]
  exact run_perform hw h.isLive hc hf ho

end Shows

/-- What the set or map answers and becomes, whoever holds the wrapper. -/
def Performs (c : Subject) (m : Collection) (op : Operation)
    (result : Except Refusal (Collection × Answer)) : Prop :=
  ∀ w : Wrapper, w.type = c.type → w.insertion = c.insertion → m.perform builtin w op = result

namespace Shows

theorem answered (h : Shows c owner aliases m n s) (hid : id ∈ owner :: aliases)
    (ho : op.subject? = some id) (hp : Performs c m op (.ok (m', a))) :
    ∃ s', s.step builtin op = (s', a) ∧ Shows c owner aliases m' n s' := by
  obtain ⟨w, ht, hi, hmirrors⟩ := h.mirrors hid ho
  rw [hp w ht hi] at hmirrors
  generalize hrun : s.run builtin op = r at hmirrors
  cases hmirrors with
  | answered s' m' a hb =>
    have hstep : s.step builtin op = (s', a) := step_of_run_ok hrun
    refine ⟨s', hstep, typing_step h.typing hstep, ?_, ?_, ?_⟩
    · rw [hb.wrappers]
      exact h.owner
    · rw [hb.wrappers]
      exact h.aliases
    · rw [hb.collections, Function.update_self]

theorem refused {r : Refusal} (h : Shows c owner aliases m n s) (hid : id ∈ owner :: aliases)
    (ho : op.subject? = some id) (hp : Performs c m op (.error r)) :
    s.step builtin op = (s, .refused r) := by
  obtain ⟨w, ht, hi, hmirrors⟩ := h.mirrors hid ho
  rw [hp w ht hi] at hmirrors
  generalize hrun : s.run builtin op = x at hmirrors
  cases hmirrors
  exact step_of_run_error hrun

end Shows

/-! ## Operations of tests -/

section
variable (id) {k t e : ElementType} {key v : HostValue} {x d : Datum}

theorem performs_size : Performs c m (.size id) (.ok (m, .count m.keys.card)) :=
  fun _ _ _ => rfl

theorem performs_contains (hv : StoredAs c.type.keyType v d) :
    Performs c m (.contains id v) (.ok (m, .flag (decide (d ∈ m.keys)))) := by
  intro w ht _
  rw [Collection.perform, ht, hv.lookup]
  rfl

theorem performs_contains_none : Performs c m (.contains id .none) (.ok (m, .flag false)) := by
  intro w _ _
  rw [Collection.perform, (KeyFate.mistyped (acceptsValue_none _)).lookup]
  rfl

theorem performs_add (hc : c.type = .set e) (hv : StoredAs e v d) :
    Performs c m (.add id v) (.ok (m.add d, .count (m.add d).keys.card)) := by
  intro w ht _
  rw [Collection.perform, ht, hc]
  dsimp only
  rw [checkInsertion_ok hv.accepted, hv.stored]
  rfl

/-- Removing works alike in sets and maps. -/
theorem remove_stored (hv : StoredAs t v d) {w : Wrapper} (hw : w.type.keyType = t) :
    m.remove builtin w v = .ok (m.erase d, .count (m.erase d).keys.card) := by
  rw [Collection.remove, hw, hv.lookup]
  rfl

theorem performs_discard (hc : c.type = .set e) (hv : StoredAs e v d) :
    Performs c m (.discard id v) (.ok (m.erase d, .count (m.erase d).keys.card)) := by
  intro w ht _
  rw [Collection.perform, ht, hc]
  exact remove_stored hv (by rw [ht, hc]; rfl)

theorem performs_delete (hc : c.type = .map k t) (hv : StoredAs k key x) :
    Performs c m (.delete id key) (.ok (m.erase x, .count (m.erase x).keys.card)) := by
  intro w ht _
  rw [Collection.perform, ht, hc]
  exact remove_stored hv (by rw [ht, hc]; rfl)

theorem performs_put (hc : c.type = .map k t) (hk : StoredAs k key x) (hv : StoredAs t v d) :
    Performs c m (.put id key v) (.ok (m.put x d, .count (m.put x d).keys.card)) := by
  intro w ht _
  rw [Collection.perform, ht, hc]
  dsimp only
  rw [checkInsertion_ok hk.accepted, checkInsertion_ok hv.accepted, hk.stored, hv.stored]
  rfl

theorem performs_get (hc : c.type = .map k t) (hk : StoredAs k key x) (hx : m.get? x = some d)
    (hv : d.toHost t = .ok v) : Performs c m (.get id key) (.ok (m, .value v)) := by
  intro w ht _
  rw [Collection.perform, ht, hc]
  dsimp only
  rw [check_of_accepted hk.accepted, hk.lookup]
  simp only [refuse, Except.mapError, bind, Except.bind, Option.bind_some, hx, hv]
  rfl

theorem performs_get_absent (hc : c.type = .map k t) (hk : StoredAs k key x)
    (hx : m.get? x = none) :
    Performs c m (.get id key) (.error (.fault (.absentKey key))) := by
  intro w ht _
  rw [Collection.perform, ht, hc]
  dsimp only
  rw [check_of_accepted hk.accepted, hk.lookup]
  simp only [refuse, Except.mapError, bind, Except.bind, Option.bind_some, hx]
  rfl

theorem performs_get_none (hc : c.type = .map k t) : ∃ human,
    Performs c m (.get id .none) (.error (.fault (.wrongKind human "keys" "NoneType"))) := by
  obtain ⟨human, hcheck⟩ := check_of_rejected "keys" (acceptsValue_none k)
  refine ⟨human, fun w ht _ => ?_⟩
  rw [Collection.perform, ht, hc]
  dsimp only
  rw [hcheck]
  rfl

end

/-! ## New wrappers -/

variable (id) in
/-- A wrapper with a container of its own is the only one that the test has of it. -/
theorem shows_start {origin : Origin} (htyping : ∃ types, Typing types s)
    (ho : origin.start? c.type = some (.ok m)) : ∃ s' n,
    s.step builtin (.create id c.type c.insertion origin) = (s', .created c.type true) ∧
      Shows c id [] m n s' := by
  obtain ⟨n, s', hrun, -, hb⟩ := @run_start builtin s id c.type c.insertion origin m ho
  have hstep : s.step builtin (.create id c.type c.insertion origin) =
      (s', .created c.type true) := step_of_run_ok hrun
  refine ⟨s', n, hstep, typing_step htyping hstep, ?_, List.forall_mem_nil _, ?_⟩
  · rw [hb.wrappers]
    exact lookup_rebind_self
  · rw [hb.collections, Function.update_self]

theorem Shows.alias (h : Shows c owner aliases m n s) (hid : id ∉ owner :: aliases) : ∃ s',
    s.step builtin (.create id c.type c.insertion (.alias owner (some false))) =
      (s', .created c.type false) ∧ Shows c owner (id :: aliases) m n s' := by
  obtain ⟨hne, hid⟩ := not_or.mp (List.mem_cons.not.mp hid)
  let w : Wrapper := ⟨c.type, c.insertion, n, false⟩
  let s' : Store := { s with wrappers := rebind id w s.wrappers }
  have hstep : s.step builtin (.create id c.type c.insertion (.alias owner (some false))) =
      (s', .created c.type false) := by
    refine step_of_run_ok ?_
    rw [Store.run, build_alias h.owner h.isKey, content_bind h.isLive]
    rfl
  refine ⟨s', hstep, typing_step h.typing hstep, ?_, List.forall_mem_cons.mpr ⟨?_, fun i hi => ?_⟩,
    h.collection⟩
  · exact (lookup_rebind_of_ne (Ne.symm hne)).trans h.owner
  · exact lookup_rebind_self
  · have hi' : i ≠ id := ne_of_mem_of_not_mem hi hid
    exact (lookup_rebind_of_ne hi').trans (h.aliases i hi)

/-! ## Iterators -/

/-- The iterator is at a position in the container `n`. -/
def At (c : Subject) (iterator : String) (p : Position) (n : Nat) (s : Store) : Prop :=
  s.cursors.lookup iterator = some ⟨c.type.keyType, n, p⟩

theorem Shows.iterate (iterator : String) (h : Shows c owner aliases m n s)
    (hid : id ∈ owner :: aliases) : ∃ s', s.step builtin (.iterate id iterator) = (s', .done) ∧
      Shows c owner aliases m n s' ∧ At c iterator .start n s' := by
  obtain ⟨owns, hw⟩ := h.lookup hid
  let s' : Store :=
    { s with cursors := rebind iterator ⟨c.type.keyType, n, .start⟩ s.cursors }
  have hstep : s.step builtin (.iterate id iterator) = (s', .done) := by
    refine step_of_run_ok ?_
    rw [Store.run, wrapper_bind hw, content_bind h.isLive]
    rfl
  exact ⟨s', hstep, h.of_step hstep rfl rfl, lookup_rebind_self⟩

/-- The keys that an iterator at a position has not come to. -/
def ahead (m : Collection) : Position → Finset Datum
  | .start => m.keys
  | .after l => m.keys.filter (l < ·)
  | .done => ∅

theorem mem_ahead {p : Position} {k : Datum} : k ∈ ahead m p ↔ k ∈ m.keys ∧ p.Before k := by
  cases p with
  | start => exact (and_iff_left trivial).symm
  | after l => exact Finset.mem_filter
  | done => exact ⟨fun h => absurd h (Finset.notMem_empty k), fun h => h.2.elim⟩

/-- Behind the least key ahead are all others. -/
theorem ahead_after {p : Position} {k : Datum} (h : IsLeast {k | k ∈ m.keys ∧ p.Before k} k) :
    ahead m (.after k) = (ahead m p).erase k := by
  ext x
  rw [Finset.mem_erase, mem_ahead, mem_ahead]
  constructor
  · rintro ⟨hx, hlt⟩
    refine ⟨ne_of_gt hlt, hx, ?_⟩
    cases p with
    | start => exact trivial
    | after l => exact lt_trans h.1.2 hlt
    | done => exact h.1.2.elim
  · rintro ⟨hne, hx, hp⟩
    exact ⟨hx, lt_of_le_of_ne (h.2 ⟨hx, hp⟩) hne.symm⟩

section
variable {iterator : String} {p : Position}
  (hshown : ∀ k ∈ m.keys, ∃ v, k.toHost c.type.keyType = .ok v)
include hshown

/-- An iterator ends if no key is ahead, and otherwise comes to the least one. -/
theorem Shows.next (h : Shows c owner aliases m n s) (hp : At c iterator p n s) :
    (ahead m p = ∅ ∧ ∃ s', s.step builtin (.next iterator) = (s', .exhausted) ∧
      Shows c owner aliases m n s' ∧ At c iterator .done n s') ∨
    ∃ s' k v, s.step builtin (.next iterator) = (s', .value v) ∧ k ∈ ahead m p ∧
      ahead m (.after k) = (ahead m p).erase k ∧
      Shows c owner aliases m n s' ∧ At c iterator (.after k) n s' := by
  obtain ⟨types, htypes⟩ := h.typing
  obtain ⟨m', hm', hnext⟩ := run_next (c := builtin) htypes hp
  obtain rfl : m = m' := Option.some.inj (h.collection.symm.trans hm')
  generalize hrun : s.run builtin (.next iterator) = r at hnext
  cases hnext with
  | «over» hd =>
    have hdone : p = .done := hd
    subst hdone
    exact .inl ⟨rfl, s, step_of_run_ok hrun, h, hp⟩
  | exhausted _ hnone =>
    have hempty : ahead m p = ∅ := by
      refine Finset.eq_empty_of_forall_notMem fun k hk => ?_
      obtain ⟨hk, hb⟩ := mem_ahead.mp hk
      exact hnone k hk hb
    have hstep := step_of_run_ok hrun
    exact .inl ⟨hempty, _, hstep, h.of_step hstep rfl rfl, lookup_rebind_self⟩
  | yielded k v hk hv =>
    have hstep := step_of_run_ok hrun
    exact .inr ⟨_, k, v, hstep, mem_ahead.mpr hk.1, ahead_after hk, h.of_step hstep rfl rfl,
      lookup_rebind_self⟩
  | refused k f hk hf =>
    obtain ⟨v, hv⟩ := hshown k hk.1.1
    cases hf.symm.trans hv

/-- Draining an iterator takes a step for each key ahead and one more. -/
theorem Shows.drain : ∀ {rounds : Nat} {p : Position} {s : Store}, Shows c owner aliases m n s →
    At c iterator p n s → (ahead m p).card < rounds → ∃ s' vs,
      Scenario.drain iterator rounds s = .ok (s', vs) ∧ vs.length = (ahead m p).card ∧
      Shows c owner aliases m n s' ∧ At c iterator .done n s'
  | 0, _, _, _, _, hlt => absurd hlt (Nat.not_lt_zero _)
  | rounds + 1, p, s, h, hp, hlt => by
    rw [Scenario.drain]
    rcases h.next hshown hp with
      ⟨hempty, s', hstep, h', hp'⟩ | ⟨s', k, v, hstep, hk, hahead, h', hp'⟩
    · rw [hstep, hempty]
      exact ⟨s', [], rfl, rfl, h', hp'⟩
    · have hcard : (ahead m (.after k)).card + 1 = (ahead m p).card := by
        rw [hahead]
        exact Finset.card_erase_add_one hk
      obtain ⟨s'', vs, hdrain, hlength, h'', hp''⟩ :=
        Shows.drain h' hp' (show (ahead m (.after k)).card < rounds by omega)
      rw [hstep]
      refine ⟨s'', v :: vs, ?_, ?_, h'', hp''⟩
      · show (Scenario.drain iterator rounds s' >>= fun r => pure (r.1, v :: r.2)) = _
        rw [hdrain]
        rfl
      · rw [List.length_cons, hlength, hcard]

omit hshown in
theorem Shows.rounds_eq (h : Shows c owner aliases m n s) (hp : At c iterator p n s) :
    rounds s iterator = m.keys.card + 1 := by
  obtain ⟨-, hf, hm⟩ := h.content
  rw [rounds, hp]
  show (s.contentAt n).size + 1 = _
  rw [Content.size_eq hf, hm]

end

end WrapGen.Scenario
