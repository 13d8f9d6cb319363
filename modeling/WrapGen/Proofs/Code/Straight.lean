import WrapGen.Proofs.Code.Scoping

/-!
# Straight code

A block without branches, loops and handlers has a single list of events, and every
path through the block is a beginning of it. Whether a name is read too early is
found by going through the list once.

* `Function.wellScoped_of_straight`: a function is well-scoped if going through the
  events of its block succeeds.
-/
namespace WrapGen.Code

/-! ## Events of a straight block -/

namespace Stmt

/-- What happens in a straight statement. -/
@[simp] def events? : Stmt → Option (List Event)
  | .assign target value => some (value.evaluated ++ target.assigned)
  | .expr e | .delete e | .ret (some e) => some e.evaluated
  | .comment _ | .blank => some []
  | _ => none

/-- What happens in a straight block. -/
@[simp] def eventsAll? : List Stmt → Option (List Event)
  | [] => some []
  | s :: ss => do return (← s.events?) ++ (← eventsAll? ss)

variable {s : Stmt} {ss : List Stmt} {events path : List Event} {exit : Exit}

theorem paths_begins (he : s.events? = some events) (h : s.paths path exit) :
    path <+: events ∧ (exit = .normal → path = events) := by
  cases s with
  | assign target value | expr e | delete e | comment text | blank =>
    cases he
    exact Paths.run_begins h
  | ret value =>
    cases value with
    | none => cases he
    | some e =>
      cases he
      rcases h with ⟨h, -⟩ | ⟨a, b, ha, ⟨rfl, rfl⟩, rfl⟩
      · exact Paths.run_begins h
      · rw [List.append_nil, (Paths.run_begins ha).2 rfl]
        exact ⟨List.prefix_rfl, nofun⟩
  | _ => cases he

/-- A path through a straight block is a beginning of its events. -/
theorem pathsAll_begins : ∀ {ss : List Stmt} {events path : List Event},
    eventsAll? ss = some events → pathsAll ss path exit → path <+: events
  | [], _, path, he, h => by
    cases he
    exact (Paths.run_begins h).1
  | s :: ss, events, path, he, h => by
    obtain ⟨first, hfirst, he⟩ := Option.bind_eq_some_iff.mp he
    obtain ⟨others, hothers, he⟩ := Option.bind_eq_some_iff.mp he
    cases he
    rcases h with ⟨h, -⟩ | ⟨a, b, ha, hb, rfl⟩
    · exact (paths_begins hfirst h).1.trans (List.prefix_append first others)
    · rw [(paths_begins hfirst ha).2 rfl, List.prefix_append_right_inj]
      exact pathsAll_begins hothers hb

/-- A straight block contains no declaration and no loop. -/
theorem nested_of_events : ∀ {ss : List Stmt} {events : List Event},
    eventsAll? ss = some events →
      ∀ t ∈ nestedAll ss, t.isDecl = false ∧ t.loopTargets = []
  | [], _, _ => List.forall_mem_nil _
  | s :: ss, events, he => by
    obtain ⟨first, hfirst, he⟩ := Option.bind_eq_some_iff.mp he
    obtain ⟨others, hothers, -⟩ := Option.bind_eq_some_iff.mp he
    refine List.forall_mem_append.mpr ⟨?_, nested_of_events hothers⟩
    cases s with
    | assign | expr | delete | ret | comment | blank =>
      exact List.forall_mem_singleton.mpr ⟨rfl, rfl⟩
    | _ => cases hfirst

end Stmt

/-! ## Names without a value -/

/-- The names without a value after an event, if `pending` are those before it. Fails if
the event needs the value of one of them. -/
@[simp] def Event.settle (pending : List String) : Event → Option (List String)
  | .read x | .setField x _ => if x ∈ pending then none else some pending
  | .bind x => some (pending.filter fun y => y != x)

/-- Whether no event of a list needs the value of a name that has none yet. -/
@[simp] def settles (pending : List String) : List Event → Bool
  | [] => true
  | e :: es => (e.settle pending).any fun rest => settles rest es

namespace Scope

variable {sc : Scope} {pending rest : List String} {before : List Event} {e : Event}

theorem allows_of_settle (h : e.settle pending = some rest)
    (hbefore : ∀ x, x ∉ pending → sc.Readable before x) :
    sc.Allows before e ∧ ∀ x, x ∉ rest → sc.Readable (before ++ [e]) x := by
  cases e with
  | read x =>
    obtain ⟨hx, rfl⟩ : x ∉ pending ∧ pending = rest := by simpa using h
    exact ⟨hbefore x hx, fun y hy => (hbefore y hy).append _⟩
  | setField x field =>
    obtain ⟨hx, rfl⟩ : x ∉ pending ∧ pending = rest := by simpa using h
    exact ⟨fun hl => (hbefore x hx hl).imp_right And.left, fun y hy => (hbefore y hy).append _⟩
  | bind x =>
    cases h
    refine ⟨trivial, fun y hy => ?_⟩
    by_cases hxy : y = x
    · exact fun _ => Or.inl (by simp [hxy])
    · exact (hbefore y fun hm => hy (by simp [hm, hxy])).append _

theorem covers_of_settles : ∀ {es before : List Event} {pending : List String},
    settles pending es = true → (∀ x, x ∉ pending → sc.Readable before x) → sc.Covers before es
  | [], _, _, _, _ => covers_nil
  | e :: es, before, pending, h, hbefore => by
    rw [settles, Option.any_eq_true] at h
    obtain ⟨rest, hrest, h⟩ := h
    obtain ⟨he, hafter⟩ := allows_of_settle hrest hbefore
    exact covers_cons.mpr ⟨he, covers_of_settles h hafter⟩

end Scope

/-- Whether a block is straight and, after some declarations, needs no value too early. -/
def straight (ds : List Declaration) (block : List Stmt) : Bool :=
  (Stmt.eventsAll? block).any (settles (Scope.of ds block).locals)

/-- A function with a straight block is well-scoped if it declares distinct names that
are no parameters. -/
theorem Function.wellScoped_of_straight {f : Function} {ds : List Declaration} {block : List Stmt}
    (hbody : f.body = some (ds.map Declaration.stmt ++ block))
    (hnodup : (ds.map Declaration.name).Nodup)
    (hparams : ∀ d ∈ ds, d.name ∉ f.params.map Param.name) (h : straight ds block = true) :
    f.WellScoped := by
  rw [straight, Option.any_eq_true] at h
  obtain ⟨events, hevents, hsettles⟩ := h
  refine wellScoped_of_takes hbody hnodup hparams (fun s hs => ?_) ?_
  · obtain ⟨hd, ht⟩ := Stmt.nested_of_events hevents s hs
    exact ⟨hd, fun d _ => ht ▸ List.not_mem_nil⟩
  · intro before path exit hbefore hp
    have hcovers := Scope.covers_of_settles hsettles hbefore
    exact ⟨hcovers.of_begins (Stmt.pathsAll_begins hevents hp), fun _ _ hx => hx.elim⟩

/-- A name that is read and assigned after that. -/
example : straight [] [.expr (.name "x"), .assign (.name "x") .none] = false := by decide

/-- A straight function without declarations. -/
theorem Function.wellScoped_undeclared {f : Function} {block : List Stmt}
    (hbody : f.body = some block) (h : straight [] block = true) : f.WellScoped :=
  have hbody' : f.body = some (List.map Declaration.stmt [] ++ block) := hbody
  wellScoped_of_straight hbody' List.nodup_nil (List.forall_mem_nil _) h

end WrapGen.Code
