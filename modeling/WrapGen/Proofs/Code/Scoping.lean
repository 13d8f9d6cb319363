import WrapGen.Proofs.Code.Paths
import Mathlib.Data.Set.Insert

/-!
# Rules for scopes

`Takes A P B` says that the paths of `P` read only names with a value if the names
of `A` have one, and that the names of `B` have one where the paths end normally.
A value is never lost, so that what is known before a piece of code is known
after it and in every handler. There is one rule for each way to put paths
together and one for each statement.
-/
namespace WrapGen.Code

namespace Paths

variable {P Q : Paths} {events path : List Event} {exit : Exit}

/-- Only a raise ends events early. -/
theorem run_begins (h : run events path exit) :
    path <+: events ∧ (exit = .normal → path = events) := by
  rcases h with ⟨rfl, -⟩ | ⟨hbegins, rfl⟩
  · exact ⟨List.prefix_rfl, fun _ => rfl⟩
  · exact ⟨hbegins, nofun⟩

theorem andThen_normal (h : P.andThen Q path .normal) :
    ∃ a b, P a .normal ∧ Q b .normal ∧ path = a ++ b := by
  rcases h with ⟨-, h⟩ | h
  · exact absurd rfl h
  · exact h

end Paths

namespace Scope

variable {sc : Scope} {before a b path : List Event} {x : String}

/-! ## Paths that are covered -/

theorem HasValue.append (h : sc.HasValue before x) (more : List Event) :
    sc.HasValue (before ++ more) x :=
  h.imp (List.mem_append_left _) fun ⟨hx, hf⟩ =>
    ⟨hx, fun field hm => List.mem_append_left _ (hf field hm)⟩

theorem covers_nil : sc.Covers before [] := by
  intro a e b h
  cases a <;> cases h

theorem covers_cons {e : Event} :
    sc.Covers before (e :: path) ↔ sc.Allows before e ∧ sc.Covers (before ++ [e]) path := by
  constructor
  · intro h
    refine ⟨by simpa using h [] e path rfl, fun a e' b hp => ?_⟩
    simpa using h (e :: a) e' b (by rw [hp, List.cons_append])
  · rintro ⟨he, hpath⟩ a e' b hp
    cases a with
    | nil =>
      cases hp
      simpa using he
    | cons _ a =>
      cases hp
      simpa using hpath a e' b rfl

theorem covers_append : ∀ {a before : List Event},
    sc.Covers before (a ++ b) ↔ sc.Covers before a ∧ sc.Covers (before ++ a) b
  | [], before => by simp [covers_nil]
  | e :: a, before => by
    rw [List.cons_append, covers_cons, covers_cons, covers_append, and_assoc]
    simp

theorem Covers.of_begins (h : sc.Covers before path) (hp : a <+: path) : sc.Covers before a := by
  obtain ⟨b, rfl⟩ := hp
  exact (covers_append.mp h).1

/-! ## What is known before and after -/

/-- A name may be read: it has a value, or it is not local. -/
def Readable (sc : Scope) (before : List Event) (x : String) : Prop :=
  x ∈ sc.locals → sc.HasValue before x

theorem Readable.append (h : sc.Readable before x) (more : List Event) :
    sc.Readable (before ++ more) x :=
  fun hx => (h hx).append more

/-- If the names of `A` may be read, the paths of `P` are covered, and where they end
normally the names of `B` may be read too. -/
def Takes (sc : Scope) (A : Set String) (P : Paths) (B : Set String) : Prop :=
  ∀ before path exit, (∀ x ∈ A, sc.Readable before x) → P path exit →
    sc.Covers before path ∧ (exit = .normal → ∀ x ∈ B, sc.Readable (before ++ path) x)

variable {A A' B B' C : Set String} {P Q : Paths} {events : List Event} {exit : Exit}

theorem Takes.mono (h : sc.Takes A P B) (hA : A ⊆ A') (hB : B' ⊆ B) : sc.Takes A' P B' := by
  intro before path exit hbefore hp
  obtain ⟨hc, hend⟩ := h before path exit (fun x hx => hbefore x (hA hx)) hp
  exact ⟨hc, fun he x hx => hend he x (hB hx)⟩

/-- More may be known before. -/
theorem Takes.extend (h : sc.Takes A P B) : sc.Takes (A ∪ C) P B :=
  h.mono Set.subset_union_left subset_rfl

/-- Nothing need be known after. -/
theorem Takes.forget (h : sc.Takes A P B) : sc.Takes A P ∅ :=
  h.mono subset_rfl (Set.empty_subset B)

/-- What is known before is known after. -/
theorem Takes.keep (h : sc.Takes A P B) : sc.Takes A P (A ∪ B) := by
  intro before path exit hbefore hp
  obtain ⟨hc, hend⟩ := h before path exit hbefore hp
  exact ⟨hc, fun he x hx => hx.elim (fun hx => (hbefore x hx).append path) (hend he x)⟩

/-! ## Rules for paths -/

theorem takes_run (hc : ∀ before, (∀ x ∈ A, sc.Readable before x) → sc.Covers before events)
    (hb : ∀ x ∈ B, .bind x ∈ events) : sc.Takes A (.run events) B := by
  rintro before path exit hbefore (⟨rfl, rfl⟩ | ⟨hbegins, rfl⟩)
  · refine ⟨hc before hbefore, fun _ x hx _ => Or.inl ?_⟩
    exact List.mem_append_right _ (hb x hx)
  · exact ⟨(hc before hbefore).of_begins hbegins, nofun⟩

theorem takes_leave (hexit : exit ≠ .normal) : sc.Takes A (.leave exit) B := by
  rintro before path exit' - ⟨rfl, rfl⟩
  exact ⟨covers_nil, fun h => absurd h hexit⟩

theorem Takes.andThen (hP : sc.Takes A P B) (hQ : sc.Takes (A ∪ B) Q C) :
    sc.Takes A (P.andThen Q) (B ∪ C) := by
  rintro before path exit hbefore (⟨hp, hexit⟩ | ⟨a, b, ha, hb, rfl⟩)
  · exact ⟨(hP before path exit hbefore hp).1, fun h => absurd h hexit⟩
  · obtain ⟨hca, hend⟩ := hP.keep before a .normal hbefore ha
    obtain ⟨hcb, hend'⟩ := hQ.keep (before ++ a) b exit (hend rfl) hb
    refine ⟨covers_append.mpr ⟨hca, hcb⟩, fun he x hx => ?_⟩
    rw [← List.append_assoc]
    exact hend' he x (hx.imp_left Or.inr)

theorem Takes.orElse (hP : sc.Takes A P B) (hQ : sc.Takes A Q B) :
    sc.Takes A (P.orElse Q) B := by
  rintro before path exit hbefore (hp | hq)
  · exact hP before path exit hbefore hp
  · exact hQ before path exit hbefore hq

/-- Every round starts with what was known before the first. -/
theorem Takes.repeated (hP : sc.Takes A P B) : sc.Takes A (.repeated P) ∅ := by
  intro before path exit hbefore hp
  refine ⟨?_, fun _ x hx => hx.elim⟩
  induction hp generalizing before with
  | stop => exact covers_nil
  | leave hp hexit => exact (hP before _ _ hbefore hp).1
  | again ha _ ih =>
    obtain ⟨hc, -⟩ := hP before _ _ hbefore ha
    exact covers_append.mpr ⟨hc, ih _ fun x hx => (hbefore x hx).append _⟩

theorem Takes.catching (hP : sc.Takes A P B) (hQ : sc.Takes A Q B) :
    sc.Takes A (P.catching Q) B := by
  rintro before path exit hbefore (hp | ⟨a, b, ha, hb, rfl⟩)
  · exact hP before path exit hbefore hp
  · obtain ⟨hca, -⟩ := hP before a .raised hbefore ha
    obtain ⟨hcb, hend⟩ := hQ (before ++ a) b exit (fun x hx => (hbefore x hx).append a) hb
    refine ⟨covers_append.mpr ⟨hca, hcb⟩, ?_⟩
    rwa [← List.append_assoc]

/-! ## Rules for statements -/

/-- An expression whose names may be read may be evaluated. -/
theorem covers_evaluated {e : Expr} (h : ∀ x ∈ e.reads, sc.Readable before x) :
    sc.Covers before e.evaluated := by
  intro a event b hp
  have hmem : event ∈ e.evaluated := by
    rw [hp]
    exact List.mem_append_right _ List.mem_cons_self
  obtain ⟨x, hx, rfl⟩ := List.mem_map.mp hmem
  exact (h x hx).append a

theorem takes_evaluated {e : Expr} (h : ∀ x ∈ e.reads, x ∈ A) :
    sc.Takes A (.run e.evaluated) ∅ :=
  takes_run (fun _ hbefore => covers_evaluated fun x hx => hbefore x (h x hx)) (fun _ hx => hx.elim)

/-- A block is gone through if its statements are. -/
abbrev TakesAll (sc : Scope) (A : Set String) (ss : List Stmt) (B : Set String) : Prop :=
  sc.Takes A (Stmt.pathsAll ss) B

section
variable {s : Stmt} {ss ts body handler other : List Stmt} {e value source : Expr}

theorem takes_nil : sc.TakesAll A [] ∅ :=
  takes_run (fun _ _ => covers_nil) (fun _ hx => hx.elim)

theorem Takes.cons (hs : sc.Takes A s.paths B) (hss : sc.TakesAll (A ∪ B) ss C) :
    sc.TakesAll A (s :: ss) (B ∪ C) :=
  hs.andThen hss

theorem Takes.single (hs : sc.Takes A s.paths B) : sc.TakesAll A [s] B :=
  (hs.cons takes_nil).mono subset_rfl Set.subset_union_left

/-- A block is gone through if each of its statements is from the start. -/
theorem takes_each : ∀ {ss : List Stmt}, (∀ s ∈ ss, sc.Takes A s.paths ∅) → sc.TakesAll A ss ∅
  | [], _ => takes_nil
  | s :: ss, h => by
    obtain ⟨hs, hss⟩ := List.forall_mem_cons.mp h
    exact (hs.cons (takes_each hss).extend).forget

theorem pathsAll_append : ∀ {ss : List Stmt} {path : List Event},
    Stmt.pathsAll (ss ++ ts) path exit →
      (Stmt.pathsAll ss).andThen (Stmt.pathsAll ts) path exit
  | [], path, h => Or.inr ⟨[], path, Or.inl ⟨rfl, rfl⟩, h, rfl⟩
  | s :: ss, path, h => by
    rcases h with ⟨h, hexit⟩ | ⟨a, b, ha, hb, rfl⟩
    · exact Or.inl ⟨Or.inl ⟨h, hexit⟩, hexit⟩
    · rcases pathsAll_append hb with ⟨hb, hexit⟩ | ⟨c, d, hc, hd, rfl⟩
      · exact Or.inl ⟨Or.inr ⟨a, b, ha, hb, rfl⟩, hexit⟩
      · exact Or.inr ⟨a ++ c, d, Or.inr ⟨a, c, ha, hc, rfl⟩, hd, (List.append_assoc a c d).symm⟩

theorem Takes.append (hs : sc.TakesAll A ss B) (ht : sc.TakesAll (A ∪ B) ts C) :
    sc.TakesAll A (ss ++ ts) (B ∪ C) :=
  fun before path exit hbefore hp => hs.andThen ht before path exit hbefore (pathsAll_append hp)

theorem takes_assign {target : Expr} (hv : ∀ x ∈ value.reads, x ∈ A)
    (ht : ∀ before, (∀ x ∈ A, sc.Readable before x) → sc.Covers before target.assigned)
    (hb : ∀ x ∈ B, .bind x ∈ target.assigned) : sc.Takes A (Stmt.assign target value).paths B := by
  refine takes_run (fun before hbefore => ?_) fun x hx => List.mem_append_right _ (hb x hx)
  refine covers_append.mpr ⟨covers_evaluated fun x hx => hbefore x (hv x hx), ?_⟩
  exact ht _ fun x hx => (hbefore x hx).append _

theorem takes_assign_name (hv : ∀ x ∈ value.reads, x ∈ A) :
    sc.Takes A (Stmt.assign (.name x) value).paths {x} :=
  takes_assign hv (fun _ _ => covers_cons.mpr ⟨trivial, covers_nil⟩) fun y hy => by
    rw [Set.mem_singleton_iff.mp hy]
    exact List.mem_singleton_self _

/-- The field of a name is set if the name has a value or is an aggregate. -/
theorem takes_assign_field {field : String} (hv : ∀ y ∈ value.reads, y ∈ A)
    (hx : x ∈ A ∨ x ∈ sc.aggregates) :
    sc.Takes A (Stmt.assign (.attr (.name x) field) value).paths ∅ := by
  refine takes_assign hv (fun before hbefore => covers_cons.mpr ⟨fun hl => ?_, covers_nil⟩)
    fun _ hy => hy.elim
  rcases hx with hx | hx
  · exact (hbefore x hx hl).imp_right And.left
  · exact Or.inr hx

/-- An aggregate has a value when all of its fields are set. -/
theorem takes_assign_fields {re im : Expr} (hx : x ∈ sc.aggregates) (hre : ∀ y ∈ re.reads, y ∈ A)
    (him : ∀ y ∈ im.reads, y ∈ A) : sc.TakesAll A
      [.assign (.attr (.name x) "re") re, .assign (.attr (.name x) "im") im] {x} := by
  have hfirst : sc.Takes A (Stmt.assign (.attr (.name x) "re") re).paths ∅ :=
    takes_assign_field hre (Or.inr hx)
  have hsecond : sc.TakesAll A [.assign (.attr (.name x) "im") im] ∅ :=
    (takes_assign_field him (Or.inr hx)).single
  intro before path exit hbefore hp
  refine ⟨((hfirst.cons hsecond.extend) before path exit hbefore hp).1, ?_⟩
  rintro rfl y rfl -
  obtain ⟨a, rest, ha, hrest, rfl⟩ := Paths.andThen_normal hp
  obtain ⟨b, c, hb, -, rfl⟩ := Paths.andThen_normal hrest
  rw [(Paths.run_begins ha).2 rfl, (Paths.run_begins hb).2 rfl]
  refine Or.inr ⟨hx, fun field hf => ?_⟩
  simp only [aggregateFields, List.mem_cons, List.not_mem_nil, or_false] at hf
  rcases hf with rfl | rfl <;> simp [Expr.assigned]

theorem takes_assign_index {receiver index : Expr} (hv : ∀ x ∈ value.reads, x ∈ A)
    (hr : ∀ x ∈ receiver.reads, x ∈ A) (hi : ∀ x ∈ index.reads, x ∈ A) :
    sc.Takes A (Stmt.assign (.index receiver index) value).paths ∅ := by
  refine takes_assign hv (fun before hbefore => ?_) fun _ hy => hy.elim
  refine covers_evaluated (e := .index receiver index) fun x hx => hbefore x ?_
  rw [Expr.reads, List.mem_append] at hx
  exact hx.elim (hr x) (hi x)

theorem takes_expr (he : ∀ x ∈ e.reads, x ∈ A) : sc.Takes A (Stmt.expr e).paths ∅ :=
  takes_evaluated he

theorem takes_delete (he : ∀ x ∈ e.reads, x ∈ A) : sc.Takes A (Stmt.delete e).paths ∅ :=
  takes_evaluated he

/-- A statement that leaves the block makes anything known after it. -/
theorem takes_give (he : ∀ x ∈ e.reads, x ∈ A) : sc.Takes A (Stmt.give e).paths B := by
  have hleave : sc.Takes (A ∪ ∅) (.leave .returned) B := takes_leave nofun
  exact ((takes_evaluated he).andThen hleave).mono subset_rfl Set.subset_union_right

theorem takes_raise (he : ∀ x ∈ e.reads, x ∈ A) : sc.Takes A (Stmt.raise e).paths B := by
  have hleave : sc.Takes (A ∪ ∅) (.leave .raised) B := takes_leave nofun
  exact ((takes_evaluated he).andThen hleave).mono subset_rfl Set.subset_union_right

theorem takes_arms {rest : Paths} (hrest : sc.Takes A rest B) : ∀ {arms : List (Expr × List Stmt)},
    (∀ arm ∈ arms, (∀ x ∈ arm.1.reads, x ∈ A) ∧ sc.TakesAll A arm.2 B) →
      sc.Takes A (Stmt.pathsArms rest arms) B
  | [], _ => hrest
  | (condition, body) :: arms, h => by
    obtain ⟨⟨hcondition, hbody⟩, harms⟩ := List.forall_mem_cons.mp h
    have hrest := hbody.orElse (takes_arms hrest harms)
    exact ((takes_evaluated hcondition).andThen hrest.extend).mono subset_rfl
      Set.subset_union_right

theorem takes_when (hc : ∀ x ∈ e.reads, x ∈ A) (hb : sc.TakesAll A body ∅) :
    sc.Takes A (Stmt.when e body).paths ∅ :=
  takes_arms takes_nil (List.forall_mem_singleton.mpr ⟨hc, hb⟩)

theorem takes_ifElse (hc : ∀ x ∈ e.reads, x ∈ A) (hb : sc.TakesAll A body B)
    (ho : sc.TakesAll A other B) : sc.Takes A (Stmt.ifElse e body other).paths B :=
  takes_arms ho (List.forall_mem_singleton.mpr ⟨hc, hb⟩)

theorem takes_forEach {targets : List String} (hs : ∀ x ∈ source.reads, x ∈ A)
    (hb : sc.TakesAll (A ∪ {x | x ∈ targets}) body B) :
    sc.Takes A (Stmt.forEach targets source body).paths ∅ := by
  have htargets : sc.Takes A (.run (targets.map .bind)) {x | x ∈ targets} := by
    refine takes_run (fun before _ => ?_) fun x hx => List.mem_map_of_mem hx
    intro a event b hp
    have hmem : event ∈ targets.map Event.bind := by
      rw [hp]
      exact List.mem_append_right _ List.mem_cons_self
    obtain ⟨x, -, rfl⟩ := List.mem_map.mp hmem
    trivial
  have hrounds := (htargets.andThen hb).repeated
  exact ((takes_evaluated hs).andThen hrounds.extend).forget

theorem takes_loop (hc : ∀ x ∈ e.reads, x ∈ A) (hb : sc.TakesAll A body B) :
    sc.Takes A (Stmt.loop e body).paths ∅ := by
  have hrounds := (hb.andThen (takes_evaluated hc).extend).repeated
  exact ((takes_evaluated hc).andThen hrounds.extend).forget

theorem takes_attempt {exception : String} (hb : sc.TakesAll A body B)
    (hh : sc.TakesAll A handler B) : sc.Takes A (Stmt.attempt body exception handler).paths B :=
  hb.catching hh

end

/-! ## Functions -/

/-- A scope has the aggregates of some declarations. -/
def Declares (sc : Scope) (ds : List Declaration) : Prop :=
  ∀ d ∈ ds, d.type = Recipe.complexType → d.name ∈ sc.aggregates

variable {ds es : List Declaration} {block : List Stmt}

theorem Declares.mono (h : sc.Declares es) (hs : ∀ d ∈ ds, d ∈ es) : sc.Declares ds :=
  fun d hd => h d (hs d hd)

theorem declares_of : (Scope.of ds block).Declares ds := by
  intro d hd htype
  exact List.mem_map_of_mem (List.mem_filter.mpr ⟨hd, beq_iff_eq.mpr htype⟩)

theorem takes_decls : ∀ ds : List Declaration, sc.TakesAll A (ds.map Declaration.stmt) ∅
  | [] => takes_nil
  | _ :: ds => by
    have hd : sc.Takes A (.run []) ∅ := takes_nil
    have hds : sc.TakesAll A (ds.map Declaration.stmt) ∅ := takes_decls ds
    exact (hd.andThen hds.extend).forget

end Scope

/-- A function is well-scoped if it declares distinct names that are neither parameters
nor looped over, and its block is gone through when no local name may be read at its
start. -/
theorem Function.wellScoped_of_takes {f : Function} {ds : List Declaration} {block : List Stmt}
    (hbody : f.body = some (ds.map Declaration.stmt ++ block))
    (hnodup : (ds.map Declaration.name).Nodup)
    (hparams : ∀ d ∈ ds, d.name ∉ f.params.map Param.name)
    (hblock : ∀ s ∈ Stmt.nestedAll block, s.isDecl = false ∧ ∀ d ∈ ds, d.name ∉ s.loopTargets)
    (htakes : (Scope.of ds block).TakesAll {x | x ∉ (Scope.of ds block).locals} block ∅) :
    f.WellScoped := by
  intro body hb
  rw [hbody] at hb
  cases hb
  refine ⟨ds, block, rfl, fun s hs => (hblock s hs).1, hnodup,
    fun d hd => ⟨hparams d hd, fun s hs => (hblock s hs).2 d hd⟩, fun path exit hp => ?_⟩
  refine ((Scope.takes_decls ds).append htakes.extend _ path exit ?_ hp).1
  exact fun x hx hm => absurd hm hx

end WrapGen.Code
