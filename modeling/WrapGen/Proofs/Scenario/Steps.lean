import WrapGen.Bundle.Basic
import WrapGen.Proofs.Scenario.Container

/-!
# Statements of tests

One rule for each form of statement that generated tests have, about a block of
statements that leads from what is known of the store to what is known after it
(`Leads`). Between statements a test knows which names are wrappers of its
container, and the container as a set or map (`Holds`).

* `Leads.cons`: rules are chained.
* `leads_exhaustionChecks`: an iterator yields every key and then ends, twice.
-/
namespace WrapGen.Scenario

open Code Catalog WrapGen.Bundle

variable {c : Subject} {P Q R : Store → Prop}

/-! ## Blocks -/

/-- A block runs to its end from every store with `P`, and ends in a store with `Q`. -/
def Leads (c : Subject) (P : Store → Prop) (body : List Stmt) (Q : Store → Prop) : Prop :=
  ∀ s, P s → ∃ s', run c s body = .ok s' ∧ Q s'

theorem Leads.append {before after : List Stmt} (h : Leads c P before Q)
    (hafter : Leads c Q after R) : Leads c P (before ++ after) R := by
  intro s hs
  obtain ⟨s', hrun, hs'⟩ := h s hs
  obtain ⟨s'', hrun', hs''⟩ := hafter s' hs'
  refine ⟨s'', ?_, hs''⟩
  rw [run, List.foldlM_append]
  show (run c s before >>= fun s => run c s after) = _
  rw [hrun]
  exact hrun'

theorem Leads.cons {st : Stmt} {rest : List Stmt} (h : Leads c P [st] Q)
    (hrest : Leads c Q rest R) : Leads c P (st :: rest) R :=
  h.append hrest

theorem leads_of_exec {st : Stmt} (h : ∀ s, P s → ∃ s', exec c s st = .ok s' ∧ Q s') :
    Leads c P [st] Q := by
  intro s hs
  obtain ⟨s', hexec, hs'⟩ := h s hs
  refine ⟨s', ?_, hs'⟩
  rw [run, List.foldlM_cons, hexec]
  rfl

theorem leads_blank : Leads c P [.blank] P := leads_of_exec fun s h => ⟨s, rfl, h⟩

theorem leads_comment (text : String) : Leads c P [.comment text] P :=
  leads_of_exec fun s h => ⟨s, rfl, h⟩

/-! ## Wrappers -/

/-- The names are wrappers of one container, which is `m`. -/
def Holds (c : Subject) (owner : String) (aliases : List String) (m : Collection) (s : Store) :
    Prop :=
  ∃ n, Shows c owner aliases m n s

/-- The store may be any that operations lead to. -/
def Reached (s : Store) : Prop := ∃ types, Store.Typing types s

variable {owner id : String} {aliases : List String} {m m' : Collection} {k : Nat}
  {op : Operation} {a : Answer}

theorem Holds.reached {s : Store} (h : Holds c owner aliases m s) : Reached s :=
  h.elim fun _ h => h.typing

theorem exec_make {s : Store} {args : List Expr} {origin : Origin}
    (hargs : origin? args = some origin) :
    exec c s (.assign (.name id) ((Expr.name "conv").method c.publicClass args)) =
      perform s (.create id c.type c.insertion origin) := by
  simp only [Expr.method, exec, hargs, if_true]

/-- The construction of a wrapper with a container of its own. -/
theorem leads_make (id : String) {args : List Expr} {origin : Origin}
    (hargs : origin? args = some origin) (hstart : origin.start? c.type = some (.ok m))
    (hP : ∀ s, P s → Reached s) :
    Leads c P [.assign (.name id) ((Expr.name "conv").method c.publicClass args)]
      (Holds c id [] m) := by
  refine leads_of_exec fun s hs => ?_
  obtain ⟨s', n, hstep, h⟩ := shows_start id (hP s hs) hstart
  refine ⟨s', ?_, n, h⟩
  rw [exec_make hargs, perform, hstep]

/-- The construction of an alias that does not own the container. -/
theorem leads_alias (hid : id ∉ owner :: aliases) :
    Leads c (Holds c owner aliases m)
      [.assign (.name id) ((Expr.name "conv").method c.publicClass [.name owner, .bool false])]
      (Holds c owner (id :: aliases) m) := by
  refine leads_of_exec fun s ⟨n, hs⟩ => ?_
  obtain ⟨s', hstep, h⟩ := hs.alias hid
  have hargs : origin? [.name owner, .bool false] = some (.alias owner (some false)) := rfl
  refine ⟨s', ?_, n, h⟩
  rw [exec_make hargs, perform, hstep]

/-- A statement that runs an operation of a wrapper for its effect. -/
theorem leads_perform {st : Stmt} (hexec : ∀ s, exec c s st = perform s op)
    (hid : id ∈ owner :: aliases) (ho : op.subject? = some id)
    (hp : Performs c m op (.ok (m', .count k))) :
    Leads c (Holds c owner aliases m) [st] (Holds c owner aliases m') := by
  refine leads_of_exec fun s ⟨n, hs⟩ => ?_
  obtain ⟨s', hstep, h⟩ := hs.answered hid ho hp
  refine ⟨s', ?_, n, h⟩
  rw [hexec, perform, hstep]

section
variable {key value : ElementType} {l lv : Literal} {x d : Datum} (hid : id ∈ owner :: aliases)
include hid

theorem leads_add (hc : c.type = .set value) (hv : StoredAs value (.ofLiteral l) d) :
    Leads c (Holds c owner aliases m) [.expr ((Expr.name id).method "add" [.literal l])]
      (Holds c owner aliases (m.add d)) :=
  leads_perform (fun _ => rfl) hid rfl (performs_add _ hc hv)

theorem leads_discard (hc : c.type = .set value) (hv : StoredAs value (.ofLiteral l) d) :
    Leads c (Holds c owner aliases m) [.expr ((Expr.name id).method "discard" [.literal l])]
      (Holds c owner aliases (m.erase d)) :=
  leads_perform (fun _ => rfl) hid rfl (performs_discard _ hc hv)

theorem leads_put (hc : c.type = .map key value) (hk : StoredAs key (.ofLiteral l) x)
    (hv : StoredAs value (.ofLiteral lv) d) :
    Leads c (Holds c owner aliases m) [.assign (.index (.name id) (.literal l)) (.literal lv)]
      (Holds c owner aliases (m.put x d)) :=
  leads_perform (fun _ => rfl) hid rfl (performs_put _ hc hk hv)

theorem leads_delete (hc : c.type = .map key value) (hk : StoredAs key (.ofLiteral l) x) :
    Leads c (Holds c owner aliases m) [.delete (.index (.name id) (.literal l))]
      (Holds c owner aliases (m.erase x)) :=
  leads_perform (fun _ => rfl) hid rfl (performs_delete _ hc hk)

end

/-! ## Conditions -/

/-- A condition has a truth value, and asking for it keeps what is known. -/
def Tests (P : Store → Prop) (e : Expr) (b : Bool) : Prop :=
  ∀ s, P s → ∃ s', test s e = .ok (s', b) ∧ P s'

theorem leads_assertTrue {e : Expr} (h : Tests P e true) : Leads c P [assertTrue e] P := by
  refine leads_of_exec fun s hs => ?_
  obtain ⟨s', htest, hs'⟩ := h s hs
  refine ⟨s', ?_, hs'⟩
  show (test s e >>= fun r => require r.2 r.1) = _
  rw [htest]
  rfl

theorem leads_assertFalse {e : Expr} (h : Tests P e false) :
    Leads c P [.call "assert_false" [e]] P := by
  refine leads_of_exec fun s hs => ?_
  obtain ⟨s', htest, hs'⟩ := h s hs
  refine ⟨s', ?_, hs'⟩
  show (test s e >>= fun r => require (!r.2) r.1) = _
  rw [htest]
  rfl

theorem tests_isIn {e : Expr} {v : HostValue} {b : Bool} (hid : id ∈ owner :: aliases)
    (he : written? e = some v) (hp : Performs c m (.contains id v) (.ok (m, .flag b))) :
    Tests (Holds c owner aliases m) (.binary .isIn e (.name id)) b := by
  intro s ⟨n, hs⟩
  obtain ⟨s', hstep, h⟩ := hs.answered hid rfl hp
  refine ⟨s', ?_, n, h⟩
  show member s e id = _
  rw [member, he]
  dsimp only
  rw [hstep]

theorem Tests.notIn {e : Expr} {b : Bool} (h : Tests P (.binary .isIn e (.name id)) b) :
    Tests P (.binary .notIn e (.name id)) !b := by
  intro s hs
  obtain ⟨s', htest, hs'⟩ := h s hs
  refine ⟨s', ?_, hs'⟩
  have hmember : member s e id = .ok (s', b) := htest
  show (member s e id >>= fun r => pure (r.1, !r.2)) = _
  rw [hmember]
  rfl

theorem leads_assertNoneAbsent (hid : id ∈ owner :: aliases) :
    Leads c (Holds c owner aliases m) [assertNoneAbsent (.name id)] (Holds c owner aliases m) :=
  leads_assertFalse (tests_isIn hid rfl (performs_contains_none _))

section
variable {l : Literal} {d : Datum} (hid : id ∈ owner :: aliases)
  (hv : StoredAs c.type.keyType (.ofLiteral l) d)
include hid hv

theorem tests_literal : Tests (Holds c owner aliases m) (.binary .isIn (.literal l) (.name id))
    (decide (d ∈ m.keys)) :=
  tests_isIn hid rfl (performs_contains _ hv)

theorem leads_assertIn (hd : d ∈ m.keys) :
    Leads c (Holds c owner aliases m) [assertTrue (.binary .isIn (.literal l) (.name id))]
      (Holds c owner aliases m) :=
  leads_assertTrue (decide_eq_true hd ▸ tests_literal hid hv)

theorem leads_assertNotIn (hd : d ∉ m.keys) :
    Leads c (Holds c owner aliases m) [assertTrue (.binary .notIn (.literal l) (.name id))]
      (Holds c owner aliases m) :=
  leads_assertTrue (Tests.notIn (decide_eq_false hd ▸ tests_literal hid hv))

end

/-! ## Values -/

/-- An expression has a value, and asking for it leads from `P` to `Q`. -/
def Evaluates (P : Store → Prop) (e : Expr) (v : HostValue) (Q : Store → Prop) : Prop :=
  ∀ s, P s → ∃ s', eval s e = .ok (s', v) ∧ Q s'

/-- The assertion of an equality, under each of its names. -/
theorem leads_assertEqual {name : String} {e : Expr} {v : HostValue} {l : Literal}
    (hname : name ∈ ["assert_equal", "assert_almost_equal", "assert_array_almost_equal"])
    (he : Evaluates P e v Q) (hv : v.same (.ofLiteral l) = true) :
    Leads c P [.call name [e, .literal l]] Q := by
  refine leads_of_exec fun s hs => ?_
  obtain ⟨s', heval, hs'⟩ := he s hs
  refine ⟨s', ?_, hs'⟩
  have hassertion : exec c s (.call name [e, .literal l]) = (eval s e >>= fun r =>
      eval r.1 (.literal l) >>= fun q => require (r.2.same q.2) q.1) := by
    simp only [List.mem_cons, List.not_mem_nil, or_false] at hname
    rcases hname with rfl | rfl | rfl <;> rfl
  rw [hassertion, heval]
  show require (v.same (.ofLiteral l)) s' = _
  rw [hv]
  rfl

theorem evaluates_of_answered {e : Expr} {v : HostValue} (hid : id ∈ owner :: aliases)
    (ho : op.subject? = some id) (heval : ∀ s, eval s e = ask s op)
    (hp : Performs c m op (.ok (m, a))) (hv : ∀ s s', s.step builtin op = (s', a) →
      ask s op = .ok (s', v)) :
    Evaluates (Holds c owner aliases m) e v (Holds c owner aliases m) := by
  intro s ⟨n, hs⟩
  obtain ⟨s', hstep, h⟩ := hs.answered hid ho hp
  exact ⟨s', (heval s).trans (hv s s' hstep), n, h⟩

theorem leads_assertLength (hid : id ∈ owner :: aliases) (hcard : m.keys.card = k) :
    Leads c (Holds c owner aliases m) [assertLength id k] (Holds c owner aliases m) := by
  refine leads_assertEqual (v := .int k) List.mem_cons_self ?_ (beq_self_eq_true _)
  refine evaluates_of_answered hid rfl (fun s => rfl) (performs_size id) fun s s' hstep => ?_
  rw [ask, hstep, hcard]

theorem leads_assertSame (samples : Samples) (t : ElementType) {e : Expr} {v : HostValue}
    {l : Literal} (he : Evaluates P e v Q) (hv : v.Matches (.ofLiteral l)) :
    Leads c P [assertSame samples t e l] Q := by
  refine leads_assertEqual ?_ he (hv false)
  cases samples.comparison t <;> simp

/-- The assertion about the value under a key of a map. -/
theorem leads_assertEntry (samples : Samples) {key value : ElementType} {l lv : Literal}
    {x d : Datum} (hid : id ∈ owner :: aliases) (hc : c.type = .map key value)
    (hk : StoredAs key (.ofLiteral l) x) (hv : StoredAs value (.ofLiteral lv) d)
    (hx : m.get? x = some d) :
    Leads c (Holds c owner aliases m)
      [assertSame samples value (.index (.name id) (.literal l)) lv]
      (Holds c owner aliases m) := by
  obtain ⟨v, hshown, hmatches⟩ := hv.shown
  refine leads_assertSame samples value ?_ hmatches
  refine evaluates_of_answered hid rfl (fun s => rfl)
    (performs_get id hc hk hx hshown) fun s s' hstep => ?_
  rw [ask, hstep]

/-! ## Errors -/

theorem leads_assertRaises {error : String} {callee : Expr} {args : List Expr}
    (hop : operation? (.call callee args) = some op)
    (h : ∀ s, P s → ∃ s' a, s.step builtin op = (s', a) ∧ isError error a = true ∧ Q s') :
    Leads c P [.call "assert_raises" (.name error :: callee :: args)] Q := by
  refine leads_of_exec fun s hs => ?_
  obtain ⟨s', a, hstep, herror, hs'⟩ := h s hs
  refine ⟨s', ?_, hs'⟩
  show assertion s "assert_raises" (.name error :: callee :: args) = _
  rw [assertion, hop]
  dsimp only
  rw [hstep, herror]
  rfl

section
variable {key value : ElementType} (hid : id ∈ owner :: aliases) (hc : c.type = .map key value)
include hid hc

theorem leads_raisesKeyError {l : Literal} {x : Datum} (hk : StoredAs key (.ofLiteral l) x)
    (hx : m.get? x = none) :
    Leads c (Holds c owner aliases m)
      [.call "assert_raises" [.name "KeyError", .attr (.name id) "__getitem__", .literal l]]
      (Holds c owner aliases m) :=
  leads_assertRaises rfl fun s ⟨n, hs⟩ =>
    ⟨s, _, hs.refused hid rfl (performs_get_absent id hc hk hx), rfl, n, hs⟩

theorem leads_raisesTypeError :
    Leads c (Holds c owner aliases m)
      [.call "assert_raises" [.name "TypeError", .attr (.name id) "__getitem__", .none]]
      (Holds c owner aliases m) := by
  obtain ⟨human, hp⟩ := performs_get_none (m := m) id hc
  exact leads_assertRaises rfl fun s ⟨n, hs⟩ => ⟨s, _, hs.refused hid rfl hp, rfl, n, hs⟩

end

/-! ## Iterators -/

/-- The names are wrappers of a container that an iterator is at a position of. -/
def Iterates (c : Subject) (owner : String) (aliases : List String) (m : Collection)
    (iterator : String) (p : Position) (s : Store) : Prop :=
  ∃ n, Shows c owner aliases m n s ∧ At c iterator p n s

section
variable {iterator : String} (hshown : ∀ k ∈ m.keys, ∃ v, k.toHost c.type.keyType = .ok v)

theorem leads_iterate (hid : id ∈ owner :: aliases) :
    Leads c (Holds c owner aliases m) [.assign (.name iterator) (.callName "iter" [.name id])]
      (Iterates c owner aliases m iterator .start) := by
  refine leads_of_exec fun s ⟨n, hs⟩ => ?_
  obtain ⟨s', hstep, h, hp⟩ := hs.iterate iterator hid
  refine ⟨s', ?_, n, h, hp⟩
  show perform s (.iterate id iterator) = _
  rw [perform, hstep]

include hshown

/-- An iterator that has not moved yields as many items as there are keys. -/
theorem evaluates_drained :
    Evaluates (Iterates c owner aliases m iterator .start)
      (.callName "len" [.callName "list" [.name iterator]]) (.int m.keys.card)
      (Iterates c owner aliases m iterator .done) := by
  intro s ⟨n, hs, hp⟩
  have hrounds : m.keys.card < rounds s iterator := by
    rw [hs.rounds_eq hp]
    exact Nat.lt_succ_self _
  obtain ⟨s', vs, hdrain, hlength, h, hp'⟩ := hs.drain hshown hp hrounds
  refine ⟨s', ?_, n, h, hp'⟩
  show (drain iterator (rounds s iterator) s >>= fun r => pure (r.1, HostValue.int r.2.length)) = _
  rw [hdrain]
  show Except.ok (s', HostValue.int vs.length) = _
  rw [hlength]
  rfl

theorem leads_nextEnds :
    Leads c (Iterates c owner aliases m iterator .done)
      [.call "assert_raises" [.name "StopIteration", .name "next", .name iterator]]
      (Iterates c owner aliases m iterator .done) := by
  refine leads_assertRaises rfl fun s ⟨n, hs, hp⟩ => ?_
  rcases hs.next hshown hp with ⟨-, s', hstep, h, hp'⟩ | ⟨_, k, _, _, hk, _⟩
  · exact ⟨s', _, hstep, rfl, n, h, hp'⟩
  · exact absurd hk (Finset.notMem_empty k)

/-- An iterator yields every key and then signals its end, again and again. -/
theorem leads_exhaustionChecks (hid : id ∈ owner :: aliases) (hcard : m.keys.card = k) :
    Leads c (Holds c owner aliases m) (exhaustionChecks id k)
      (Iterates c owner aliases m "it" .done) := by
  have hlength : Evaluates (Iterates c owner aliases m "it" .start)
      (.callName "len" [.callName "list" [.name "it"]]) (.int k)
      (Iterates c owner aliases m "it" .done) := hcard ▸ evaluates_drained hshown
  refine (leads_iterate hid).cons (.cons (leads_assertEqual ?_ hlength ?_) ?_)
  · exact List.mem_cons_self
  · exact beq_self_eq_true _
  · exact (leads_nextEnds hshown).cons (leads_nextEnds hshown)

end

end WrapGen.Scenario
