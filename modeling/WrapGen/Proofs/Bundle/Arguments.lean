import WrapGen.Proofs.Bundle.Parts
import WrapGen.Proofs.Conversion.Loaded
import WrapGen.Proofs.Execution.MethodRuns
import WrapGen.Proofs.Value.Lookup

/-!
# Arguments of generated methods

What the pieces around an argument do when a method runs: the check of its kind
is the check of the catalog (`tests_typeCheck`), the conversion into a variable
puts the storage form there (`Built.convertInto_runsTo`), an integer that storage
cannot hold raises an error (`Built.convertInto_raises`), and with a fallback the
fallback is run instead.
-/
namespace WrapGen.Bundle

open Code Execution Text

/-! ## Kinds -/

theorem kindName_injective {j k : HostKind} (h : j.name = k.name) : j = k := by
  cases j <;> cases k <;> first | rfl | exact absurd h (by decide)

/-- A kind is known by its name. -/
theorem contains_names (kinds : List HostKind) (k : HostKind) :
    (kinds.map HostKind.name).contains k.name = kinds.contains k := by
  rw [Bool.eq_iff_iff, List.contains_iff_mem, List.contains_iff_mem, List.mem_map]
  constructor
  · rintro ⟨j, hj, hn⟩
    rwa [← kindName_injective hn]
  · exact fun hk => ⟨k, hk, rfl⟩

theorem isOneOf_names {t : ElementType} {kinds : List HostKind} {v : HostValue} {b : Bool}
    (hk : Catalog.builtin.accepts t = .ok kinds)
    (hb : Catalog.builtin.acceptsValue v t = .ok b) :
    (Val.host v).isOneOf (kinds.map HostKind.name) = some b := by
  rw [Catalog.acceptsValue, hk] at hb
  cases hb
  simp only [Val.isOneOf, contains_names]

namespace Argument

/-- An argument of a method, with the code of the built-in catalog. -/
structure Built (a : Argument) : Prop where
  name : a.name ∈ ["key", "value"]
  recipe : Catalog.builtin.toStorage a.expr a.type = .ok a.recipe

theorem built_of {name : String} {t : ElementType} {names : ElementNames} {a : Argument}
    (hn : name ∈ ["key", "value"]) (h : Argument.of .builtin name t names = .ok a) :
    a.Built ∧ a.name = name ∧ a.type = t := by
  obtain ⟨recipe, hr, rfl⟩ := Argument.of_eq_ok h
  exact ⟨⟨hn, hr⟩, rfl, rfl⟩

variable {a : Argument} {r : Nat → Receiver} {env : Env} {content : Content} {v : HostValue}
  {target : String}

/-- The other names in methods: the receiver and the variables for storage forms. -/
def localNames : List String := ["self", "s", "v", "k"]

theorem Built.localTo (h : a.Built) : a.recipe.LocalTo a.expr :=
  Catalog.toStorage_localTo h.recipe

theorem Built.ne_local (h : a.Built) {x : String} (hx : x ∈ localNames) : x ≠ a.name := by
  have hn := h.name
  rintro rfl
  simp only [localNames, List.mem_cons, List.not_mem_nil, or_false] at hn hx
  rcases hn with hn | hn <;> rw [hn] at hx <;> exact absurd hx (by decide)

theorem Built.not_extends_local (h : a.Built) {x : String} (hx : x ∈ localNames) :
    ¬ Extends a.expr.stem x := by
  have hprefix : ∀ n ∈ ["key", "value"], ∀ x ∈ localNames,
      ¬ (Expr.name n).stem.toList <+: x.toList := by decide
  exact fun he => hprefix a.name h.name x hx he.isPrefix

theorem Built.not_changes_local (h : a.Built) {x : String} (hx : x ∈ localNames) :
    x ∉ changesAll a.recipe.setup := fun hc =>
  h.not_extends_local hx (h.localTo.changes_extend hc)

/-! ## The check of the kind -/

theorem tests_typeCheck {accepted : Expr} (h : typeCheck .builtin a.expr a.type = .ok accepted)
    (hv : env a.name = some (.host v)) {b : Bool}
    (hb : Catalog.builtin.acceptsValue v a.type = .ok b) :
    Tests r ⟨env, content⟩ (.not accepted) !b := by
  obtain ⟨kinds, hk, rfl⟩ := typeCheck_eq_ok h
  refine tests_of_value (fun _ _ => nofun) fun rounds => ?_
  simp only [expr, value, eval, hv, given, isOneOf_names hk hb, bind, Except.bind, pure,
    Except.pure, Val.truth_ofBool]

/-! ## The conversion -/

theorem Built.decls (h : a.Built) (target : String) :
    ∀ s ∈ a.declsFor target, ∃ type target, s = .decl type target := by
  intro s hs
  rcases List.mem_cons.mp hs with rfl | hs
  · exact ⟨_, _, rfl⟩
  · exact h.localTo.decls s hs

/-- The conversion into a variable puts the storage form there. -/
theorem Built.convertInto_runsTo (h : a.Built) (ht : target ∈ localNames) (hne : target ≠ "self")
    (hself : env "self" = none) (hv : env a.name = some (.host v)) {d : Datum}
    (hd : a.type.toDatum v = .ok d) : ∃ env',
      RunsTo r (a.convertInto target) ⟨env, content⟩ (.normal ⟨env', content⟩) ∧
      env' target = some (.datum d) ∧ env' "self" = none ∧ env' a.name = some (.host v) := by
  have hs : "self" ∈ localNames := by decide
  obtain ⟨env₁, hrun, hres⟩ := Catalog.toStorage_yields a.type (Expr.isStable_name a.name)
    h.recipe (eval_name hv) hd
  have hassign : Runs [.assign (.name target) a.recipe.result] env₁
      (env₁.bind target (.datum d)) := runs_assign hres rfl
  have hchanges : "self" ∉ changesAll (a.convertInto target) := by
    rw [convertInto, changesAll_append, List.mem_append]
    rintro (hc | hc)
    · exact h.not_changes_local hs hc
    · simp only [changesAll, changes, root, List.append_nil, List.mem_singleton] at hc
      exact hne hc.symm
  refine ⟨_, (hrun.append hassign).runsTo hself hchanges, bind_self _ _ _, ?_, ?_⟩
  · rw [bind_of_ne hne.symm, h.localTo.keeps hrun (h.not_extends_local hs), hself]
  · rw [bind_of_ne (h.ne_local ht).symm, h.localTo.keeps hrun (not_extends_stem a.name), hv]

/-- An integer that storage cannot hold raises an error. -/
theorem Built.convertInto_raises (h : a.Built) (hne : target ≠ "self") (hself : env "self" = none)
    (hv : env a.name = some (.host v)) {p : Primitive} {n : Int} (ht : a.type = .primitive p)
    (hp : p.isInteger = true) (hd : a.type.toDatum v = .error (.outOfRange n p)) :
    RunsTo r (a.convertInto target) ⟨env, content⟩ (.raised "OverflowError" ⟨env, content⟩) := by
  have hcast : p ≠ .str ∧ p ≠ .complex128 := by
    cases p <;> first | exact ⟨by decide, by decide⟩ | cases hp
  obtain ⟨type, htype, hrecipe⟩ := Catalog.toStorage_cast a.expr hcast.1 hcast.2
  have hr : a.recipe = .ofResult (.cast type a.expr) := by
    have hr := h.recipe
    rw [ht, hrecipe] at hr
    exact (Except.ok.inj hr).symm
  have hc : Val.castTo type (.host v) = .error (.raised "OverflowError") := by
    rw [ht, ElementType.toDatum] at hd
    simp only [Val.castTo, htype, given, bind, Except.bind, hd]
  have he : eval env (.cast type a.expr) = .error (.raised "OverflowError") := by
    simp only [eval, expr, hv, given, bind, Except.bind, hc]
  have hexec : ∀ rounds, execAll rounds (a.convertInto target) env =
      .raised "OverflowError" env := fun rounds => by
    rw [convertInto, hr]
    simp only [Recipe.ofResult, List.nil_append, execAll, exec, he, bind, Except.bind, Flow.feed,
      Flow.andThen]
  have hchanges : "self" ∉ changesAll (a.convertInto target) := by
    rw [convertInto, hr]
    simpa [Recipe.ofResult, changesAll, changes, root] using hne.symm
  have hends : ∃ least, ∀ rounds, least ≤ rounds → execAll rounds (a.convertInto target) env =
      .raised "OverflowError" env := ⟨0, fun rounds _ => hexec rounds⟩
  exact runsTo_of_execAll hends (by simp) hself hchanges

/-- A key with a storage form is converted, whatever the fallback. -/
theorem Built.convertOr_runsTo (h : a.Built) (ht : target ∈ localNames) (hne : target ≠ "self")
    (hself : env "self" = none) (hv : env a.name = some (.host v)) {d : Datum}
    (hd : a.type.toDatum v = .ok d) (fallback : List Stmt) : ∃ env',
      RunsTo r (a.convertOr target fallback) ⟨env, content⟩ (.normal ⟨env', content⟩) ∧
      env' target = some (.datum d) ∧ env' "self" = none ∧ env' a.name = some (.host v) := by
  obtain ⟨env', hrun, henv⟩ := h.convertInto_runsTo ht hne hself hv hd
  refine ⟨env', ?_, henv⟩
  rw [convertOr]
  split
  · exact runsTo_attempt hrun
  · exact hrun

/-- For an integer that storage cannot hold the fallback is run. -/
theorem Built.convertOr_fallback (h : a.Built) (hne : target ≠ "self") (hself : env "self" = none)
    (hv : env a.name = some (.host v)) {p : Primitive} {n : Int} (ht : a.type = .primitive p)
    (hp : p.isInteger = true) (hd : a.type.toDatum v = .error (.outOfRange n p))
    {fallback : List Stmt} {f : MethodFlow} (hf : RunsTo r fallback ⟨env, content⟩ f) :
    RunsTo r (a.convertOr target fallback) ⟨env, content⟩ f := by
  have hint : a.type.isInteger = true := by
    rw [ht]
    exact hp
  rw [convertOr, if_pos hint]
  exact runsTo_attempt_raised (h.convertInto_raises hne hself hv ht hp hd) hf

/-! ## The check of strict insertion -/

/-- An argument that the check lets through passes. -/
theorem insertionGuard_runsTo {samples : Samples} {insertion : Insertion} {role : String}
    {guards : List Stmt}
    (h : insertionGuard ⟨.builtin, samples, insertion⟩ a.expr a.type role = .ok guards)
    (hv : env a.name = some (.host v))
    (hc : insertion = .strict → Catalog.builtin.acceptsValue v a.type = .ok true) :
    RunsTo r guards ⟨env, content⟩ (.normal ⟨env, content⟩) := by
  obtain ⟨-, rfl⟩ | ⟨hi, human, accepted, -, ha, rfl⟩ := insertionGuard_eq_ok h
  · exact RunsTo.nil
  · exact runsTo_when_false (tests_typeCheck ha hv (hc hi))

end Argument

end WrapGen.Bundle
