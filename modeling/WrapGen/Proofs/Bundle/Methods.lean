import WrapGen.Bundle.MapWrapper
import WrapGen.Bundle.SetWrapper
import WrapGen.Proofs.Bundle.Arguments

/-!
# What generated methods answer

The methods of wrapper classes, called on a container with any content. The
membership test and the removal are shared by sets and maps; what they answer
depends on what becomes of their argument as a key (`KeyFate`).

* `contains_answers`, `remove_answers`: for both kinds of wrappers.
* `add_answers`, `put_answers`: arguments that convert are inserted.
* `get_mistyped`, `get_overflow`, `get_absent`, `get_answers`: the ends of a lookup.
-/
namespace WrapGen.Bundle

open Code Execution Text

/-! ## Environments of calls -/

/-- The environment of a method with one argument. -/
def envOf (name : String) (v : HostValue) : Env := Env.bind (fun _ => none) name (.host v)

theorem bindParams_envOf (name : String) (v : HostValue) :
    bindParams [.plain name] [.host v] = some (envOf name v) := rfl

theorem envOf_name (name : String) (v : HostValue) : envOf name v name = some (.host v) :=
  bind_self _ _ _

theorem Argument.Built.envOf_self {a : Argument} (h : a.Built) (v : HostValue) :
    envOf a.name v "self" = none :=
  bind_of_ne (h.ne_local (by decide))

section
variable {c : ClassDef} {w : Vocabulary} {a : Argument} {target : String} {content : Content}
  {v : HostValue} {accepted : Expr}

/-! ## Membership and removal -/

/-- The membership test answers whether the content holds the storage form. -/
theorem contains_answers (hm : c.methods.find? (fun f => f.name == "__contains__") =
      some (w.containsMethod a accepted target))
    (h : a.Built) (ha : typeCheck .builtin a.expr a.type = .ok accepted)
    (ht : target ∈ Argument.localNames) (hne : target ≠ "self")
    {stored? : Option Datum} (hk : KeyFate a.type v stored?) :
    Answers c w.pointer "__contains__" [.host v] content
      (.returned (.ofBool (stored?.any content.contains)) content) := by
  have hself := h.envOf_self v
  have hv := envOf_name a.name v
  have hfalse : ∀ env, RunsTo (receiver c w.pointer) [.give (.bool false)] ⟨env, content⟩
      (.returned (.ofBool false) content) := fun env => runsTo_give fun _ => rfl
  have hcall : ∀ {ss : List Stmt} {f : MethodFlow},
      RunsTo (receiver c w.pointer) ss ⟨envOf a.name v, content⟩ f →
      RunsTo (receiver c w.pointer) (a.declsFor target ++ ss) ⟨envOf a.name v, content⟩ f :=
    fun hf => (runsTo_decls _ (h.decls target)).append hf
  cases hk with
  | mistyped hb =>
    exact answers_of_runsTo hm (bindParams_envOf a.name v)
      (hcall (runsTo_when_true (Argument.tests_typeCheck ha hv hb) (hfalse _)).of_returned)
  | overflow hb hp hi hd =>
    exact answers_of_runsTo hm (bindParams_envOf a.name v)
      (hcall ((runsTo_when_false (Argument.tests_typeCheck ha hv hb)).cons
        (h.convertOr_fallback hne hself hv hp hi hd (hfalse _)).of_returned))
  | @stored d hb hd =>
    obtain ⟨env, hrun, htarget, -⟩ := h.convertOr_runsTo ht hne hself hv hd [.give (.bool false)]
    have hcount : RunsTo (receiver c w.pointer)
        [.give (countPositive w.container (.name target))] ⟨env, content⟩
        (.returned (.ofBool (content.contains d)) content) :=
      runsTo_give (value_countPositive (receiver_pointer c w.pointer) (eval_name htarget))
    exact answers_of_runsTo hm (bindParams_envOf a.name v)
      (hcall ((runsTo_when_false (Argument.tests_typeCheck ha hv hb)).cons (hrun.append hcount)))

/-- The removal leaves the content without the storage form. -/
theorem remove_answers {name : String} (hm : c.methods.find? (fun f => f.name == "__contains__") =
      some (w.containsMethod a accepted target))
    {target' : String}
    (hr : c.methods.find? (fun f => f.name == name) = some (w.removeMethod name a target'))
    (h : a.Built) (ha : typeCheck .builtin a.expr a.type = .ok accepted)
    (ht : target ∈ Argument.localNames) (hne : target ≠ "self")
    (ht' : target' ∈ Argument.localNames) (hne' : target' ≠ "self")
    {stored? : Option Datum} (hk : KeyFate a.type v stored?) :
    Answers c w.pointer name [.host v] content
      (.returned (.host .none) (stored?.elim content content.erase)) := by
  have hself := h.envOf_self v
  have hv := envOf_name a.name v
  have hmember : Tests (receiver c w.pointer) ⟨envOf a.name v, content⟩
      (.binary .isIn a.expr self) (stored?.any content.contains) :=
    (contains_answers hm h ha ht hne hk).tests (eval_name hv)
  have hfinish : ∀ {f : MethodFlow}, RunsTo (receiver c w.pointer)
      [.when (.binary .isIn a.expr self)
        (a.convertInto target' ++ [Stmt.expr (w.container.method "erase" [.name target'])])]
      ⟨envOf a.name v, content⟩ f → Answers c w.pointer name [.host v] content f.ending :=
    fun hf => answers_of_runsTo hr (bindParams_envOf a.name v)
      ((runsTo_decls _ (h.decls target')).append hf)
  cases hk with
  | mistyped _ => exact hfinish (runsTo_when_false hmember)
  | overflow _ _ _ _ => exact hfinish (runsTo_when_false hmember)
  | @stored d _ hd =>
    rw [Option.any_some] at hmember
    show Answers _ _ _ _ _ (.returned (.host .none) (content.erase d))
    cases hc : content.contains d with
    | true =>
      rw [hc] at hmember
      obtain ⟨env, hrun, htarget, -⟩ := h.convertInto_runsTo ht' hne' hself hv hd
      have herase : RunsTo (receiver c w.pointer)
          [Stmt.expr (w.container.method "erase" [.name target'])] ⟨env, content⟩
          (.normal ⟨env, content.erase d⟩) :=
        runsTo_alter (receiver_pointer c w.pointer) (eval_name htarget) (alter_erase _ _)
      exact hfinish (runsTo_when_true hmember (hrun.append herase))
    | false =>
      rw [hc] at hmember
      rw [Content.erase_of_not_contains hc]
      exact hfinish (runsTo_when_false hmember)

end

/-! ## Insertion -/

section
variable {c : ClassDef} {samples : Samples} {insertion : Insertion}

/-- A value that converts, and that strict insertion accepts, is inserted. -/
theorem add_answers {a : Argument} {guards : List Stmt}
    (hm : c.methods.find? (fun f => f.name == "add") = some (addMethod a guards))
    (h : a.Built)
    (hg : insertionGuard ⟨.builtin, samples, insertion⟩ a.expr a.type "values" = .ok guards)
    {v : HostValue} {x : Datum} {items : List Datum}
    (hc : insertion = .strict → Catalog.builtin.acceptsValue v a.type = .ok true)
    (hx : a.type.toDatum v = .ok x) :
    Answers c Vocabulary.set.pointer "add" [.host v] (.set items)
      (.returned (.host .none) ((Content.set items).add x)) := by
  have hv := envOf_name a.name v
  have htarget : "v" ∈ Argument.localNames := by decide
  obtain ⟨env, hrun, hx, -⟩ := h.convertInto_runsTo htarget (by decide) (h.envOf_self v) hv hx
  have hinsert : RunsTo (receiver c Vocabulary.set.pointer)
      [.expr (Vocabulary.set.container.method "insert" [.name "v"])] ⟨env, .set items⟩
      (.normal ⟨env, (Content.set items).add x⟩) :=
    runsTo_alter (receiver_pointer c _) (eval_name hx) rfl
  exact answers_of_runsTo hm (bindParams_envOf a.name v) ((runsTo_decls _ (h.decls "v")).append
    (((Argument.insertionGuard_runsTo hg hv hc).append hrun).append hinsert))

/-- A key and a value are converted, the key first, and what comes out is assigned. -/
theorem storeEntry_runsTo {key value : Argument} (hk : key.Built) (hv : value.Built)
    (hkn : key.name = "key") (hvn : value.name = "value") {env : Env} {a b : HostValue}
    {x y : Datum} {entries : List (Datum × Datum)} (hself : env "self" = none)
    (ha : env key.name = some (.host a)) (hb : env value.name = some (.host b))
    (hx : key.type.toDatum a = .ok x) (hy : value.type.toDatum b = .ok y) : ∃ env',
    RunsTo (receiver c Vocabulary.map.pointer) (storeEntry key value) ⟨env, .map entries⟩
      (.normal ⟨env', (Content.map entries).put x y⟩) := by
  have hs : "self" ∈ Argument.localNames := by decide
  have hkv : ¬ key.expr.stem.toList <+: value.expr.stem.toList := by
    rw [Argument.expr, Argument.expr, hkn, hvn]
    decide
  have hvk : ¬ value.expr.stem.toList <+: key.expr.stem.toList := by
    rw [Argument.expr, Argument.expr, hkn, hvn]
    decide
  have hkey : ¬ Extends value.expr.stem key.name := by
    rw [Argument.expr, hkn, hvn]
    exact fun h => absurd h.isPrefix (by decide)
  have hvalue : ¬ Extends key.expr.stem value.name := by
    rw [Argument.expr, hkn, hvn]
    exact fun h => absurd h.isPrefix (by decide)
  have hnames : ∀ n ∈ names key.expr, ¬ Extends value.expr.stem n := by
    intro n hn
    rwa [List.mem_singleton.mp hn]
  obtain ⟨env', hrun, hresk, hresv, hkeep⟩ := Recipe.Yields.both hk.localTo hv.localTo hnames
    (fun n hn => hn.not_of_apart hkv hvk)
    (Catalog.toStorage_yields key.type (Expr.isStable_name key.name) hk.recipe (eval_name ha) hx)
    fun env' he => Catalog.toStorage_yields value.type (Expr.isStable_name value.name) hv.recipe
      (eval_name ((he value.name hvalue).trans hb)) hy
  have hself' : env' "self" = none :=
    (hkeep "self" (hk.not_extends_local hs) (hv.not_extends_local hs)).trans hself
  have hchanges : "self" ∉ changesAll (key.recipe.setup ++ value.recipe.setup) := by
    rw [changesAll_append, List.mem_append]
    exact fun hc => hc.elim (hk.not_changes_local hs) (hv.not_changes_local hs)
  have hassign : RunsTo (receiver c Vocabulary.map.pointer)
      [.assign (.index (.deref Vocabulary.map.container) key.recipe.result) value.recipe.result]
      ⟨env', .map entries⟩ (.normal ⟨env', (Content.map entries).put x y⟩) :=
    runsTo_assignEntry (receiver_pointer c _) hresk (fun _ => value_of_eval hself' hresv) rfl
  exact ⟨env', (hrun.runsTo hself hchanges).append hassign⟩

/-- A key and a value that convert, and that strict insertion accepts, are put. -/
theorem put_answers {key value : Argument} {keyGuards valueGuards : List Stmt}
    (hm : c.methods.find? (fun f => f.name == "__setitem__") =
      some (putMethod key value (keyGuards ++ valueGuards)))
    (hk : key.Built) (hv : value.Built) (hkn : key.name = "key") (hvn : value.name = "value")
    (hkg : insertionGuard ⟨.builtin, samples, insertion⟩ key.expr key.type "keys" = .ok keyGuards)
    (hvg : insertionGuard ⟨.builtin, samples, insertion⟩ value.expr value.type "values" =
      .ok valueGuards)
    {a b : HostValue} {x y : Datum} {entries : List (Datum × Datum)}
    (hca : insertion = .strict → Catalog.builtin.acceptsValue a key.type = .ok true)
    (hcb : insertion = .strict → Catalog.builtin.acceptsValue b value.type = .ok true)
    (hx : key.type.toDatum a = .ok x) (hy : value.type.toDatum b = .ok y) :
    Answers c Vocabulary.map.pointer "__setitem__" [.host a, .host b] (.map entries)
      (.returned (.host .none) ((Content.map entries).put x y)) := by
  let env := (envOf value.name b).bind key.name (.host a)
  have hself : env "self" = none := (bind_of_ne (hk.ne_local (by decide))).trans (hv.envOf_self b)
  have ha : env key.name = some (.host a) := bind_self _ _ _
  have hb : env value.name = some (.host b) := by
    have hne : value.name ≠ key.name := by
      rw [hkn, hvn]
      decide
    exact (bind_of_ne hne).trans (envOf_name value.name b)
  have hparams : bindParams [.plain key.name, .plain value.name] [.host a, .host b] = some env :=
    rfl
  have hdecls : ∀ s ∈ entryDecls key value, ∃ type target, s = .decl type target := by
    intro s hs
    exact (List.mem_append.mp hs).elim (hk.localTo.decls s) (hv.localTo.decls s)
  obtain ⟨env', hstore⟩ := storeEntry_runsTo (c := c) hk hv hkn hvn hself ha hb hx hy
  exact answers_of_runsTo hm hparams ((runsTo_decls _ hdecls).append
    (((Argument.insertionGuard_runsTo hkg ha hca).append
      (Argument.insertionGuard_runsTo hvg hb hcb)).append hstore))

end

/-! ## Lookup -/

/-- What a lookup does with a key that storage holds: it gives the value under it,
converted, or raises a key error. -/
def lookupStored (key : Argument) (found : Recipe) : List Stmt :=
  [.ifElse (countPositive Vocabulary.map.container (.name "k"))
    (.assign (.name "v") (.index (.deref Vocabulary.map.container) (.name "k")) :: found.setup ++
      [.give found.result])
    [raiseKey key.expr]]

section
variable {c : ClassDef} {key : Argument} {valueStorage : String} {found : Recipe} {v : HostValue}
  {entries : List (Datum × Datum)} {t : ElementType}

theorem get_decls (h : key.Built) (hf : Catalog.builtin.toHost (.name "v") t = .ok found) :
    ∀ s ∈ key.declsFor "k" ++ .decl valueStorage (.name "v") :: found.decls,
      ∃ type target, s = .decl type target := by
  intro s hs
  rcases List.mem_append.mp hs with hs | hs
  · exact h.decls "k" s hs
  rcases List.mem_cons.mp hs with rfl | hs
  · exact ⟨_, _, rfl⟩
  · exact (Catalog.toHost_localTo hf).decls s hs

/-- Whether a stored key is counted is whether the container holds it. -/
theorem tests_count {env : Env} {content : Content} {d : Datum}
    (hd : env "k" = some (.datum d)) :
    Tests (receiver c Vocabulary.map.pointer) ⟨env, content⟩
      (countPositive Vocabulary.map.container (.name "k")) (content.contains d) :=
  tests_of_value (fun _ _ => nofun) (value_countPositive (receiver_pointer c _) (eval_name hd))

theorem raiseKey_runsTo {r : Nat → Receiver} {frame : Frame}
    (hv : frame.env key.name = some (.host v)) :
    RunsTo r [raiseKey key.expr] frame (.raised "KeyError" frame) :=
  runsTo_raise (evalAll_cons (eval_name hv) rfl)

/-- The value under a stored key is fetched, converted and given. -/
theorem found_runsTo (hf : Catalog.builtin.toHost (.name "v") t = .ok found) {env : Env}
    {d y : Datum} {m : HostValue} (hself : env "self" = none) (hd : env "k" = some (.datum d))
    (hsome : (Content.map entries).get? d = some y) (hy : y.Loads t m) :
    RunsTo (receiver c Vocabulary.map.pointer)
      (.assign (.name "v") (.index (.deref Vocabulary.map.container) (.name "k")) ::
        found.setup ++ [.give found.result])
      ⟨env, .map entries⟩ (.returned (.host m) (.map entries)) := by
  have hentry : entryAt (.map entries) (.datum d) = some (.datum y) := by
    rw [entryAt_datum, hsome]
    rfl
  have hfetch : RunsTo (receiver c Vocabulary.map.pointer)
      [.assign (.name "v") (.index (.deref Vocabulary.map.container) (.name "k"))]
      ⟨env, .map entries⟩ (.normal ⟨env.bind "v" (.datum y), .map entries⟩) :=
    runsTo_entryAt (receiver_pointer c _) (eval_name hd) hentry
  have hself₁ : env.bind "v" (.datum y) "self" = none := (bind_of_ne (by decide)).trans hself
  obtain ⟨env₂, hrun, hres⟩ := Catalog.toHost_yields t (Expr.isStable_name "v") hf
    (eval_name (bind_self env "v" (.datum y))) hy
  -- the receiver does not extend the name of the value
  have hlocal : ¬ Extends (Expr.name "v").stem "self" := fun he => absurd he.isPrefix (by decide)
  have hchanges : "self" ∉ changesAll found.setup := fun hc =>
    hlocal ((Catalog.toHost_localTo hf).changes_extend hc)
  have hself₂ : env₂ "self" = none :=
    ((Catalog.toHost_localTo hf).keeps hrun hlocal).trans hself₁
  exact hfetch.cons ((hrun.runsTo hself₁ hchanges).append
    (runsTo_give fun _ => value_of_eval hself₂ hres))

variable {accepted : Expr} (hm : c.methods.find? (fun f => f.name == "__getitem__") =
    some (getMethod key accepted valueStorage found))
  (h : key.Built) (ha : typeCheck .builtin key.expr key.type = .ok accepted)
  (hf : Catalog.builtin.toHost (.name "v") t = .ok found)
include hm h ha hf

/-- A key of another kind is a type error. -/
theorem get_mistyped (hb : Catalog.builtin.acceptsValue v key.type = .ok false) :
    Answers c Vocabulary.map.pointer "__getitem__" [.host v] (.map entries)
      (.raised "TypeError" (.map entries)) := by
  have hraise : RunsTo (receiver c Vocabulary.map.pointer)
      [raiseType key.names.human "keys"] ⟨envOf key.name v, .map entries⟩
      (.raised "TypeError" ⟨envOf key.name v, .map entries⟩) := runsTo_raise rfl
  have hcheck := runsTo_when_true (Argument.tests_typeCheck ha (envOf_name key.name v) hb) hraise
  exact answers_of_runsTo hm (bindParams_envOf key.name v)
    ((runsTo_decls _ (get_decls h hf)).append hcheck.of_raised.of_raised)

/-- With a key of the right kind a lookup ends as its conversion and what follows. -/
theorem get_accepted (hb : Catalog.builtin.acceptsValue v key.type = .ok true) {f : MethodFlow}
    (hrest : RunsTo (receiver c Vocabulary.map.pointer)
      (key.convertOr "k" [raiseKey key.expr] ++ lookupStored key found)
      ⟨envOf key.name v, .map entries⟩ f) :
    Answers c Vocabulary.map.pointer "__getitem__" [.host v] (.map entries) f.ending :=
  answers_of_runsTo hm (bindParams_envOf key.name v) ((runsTo_decls _ (get_decls h hf)).append
    ((runsTo_when_false (Argument.tests_typeCheck ha (envOf_name key.name v) hb)).cons hrest))

/-- An integer that storage cannot hold is a key error. -/
theorem get_overflow (hb : Catalog.builtin.acceptsValue v key.type = .ok true) {p : Primitive}
    {n : Int} (hp : key.type = .primitive p) (hi : p.isInteger = true)
    (hd : key.type.toDatum v = .error (.outOfRange n p)) :
    Answers c Vocabulary.map.pointer "__getitem__" [.host v] (.map entries)
      (.raised "KeyError" (.map entries)) := by
  have hv := envOf_name key.name v
  have hconvert : RunsTo (receiver c Vocabulary.map.pointer)
      (key.convertOr "k" [raiseKey key.expr]) ⟨envOf key.name v, .map entries⟩
      (.raised "KeyError" ⟨envOf key.name v, .map entries⟩) :=
    h.convertOr_fallback (by decide) (h.envOf_self v) hv hp hi hd (raiseKey_runsTo hv)
  exact get_accepted hm h ha hf hb hconvert.of_raised

/-- A key with a storage form that is not in the map is a key error. -/
theorem get_absent (hb : Catalog.builtin.acceptsValue v key.type = .ok true) {d : Datum}
    (hd : key.type.toDatum v = .ok d) (hnone : (Content.map entries).get? d = none) :
    Answers c Vocabulary.map.pointer "__getitem__" [.host v] (.map entries)
      (.raised "KeyError" (.map entries)) := by
  have hk : "k" ∈ Argument.localNames := by decide
  obtain ⟨env, hrun, hd, -, hv⟩ := h.convertOr_runsTo hk (by decide) (h.envOf_self v)
    (envOf_name key.name v) hd [raiseKey key.expr]
  have hcount := @tests_count c env (.map entries) d hd
  rw [Content.contains_map, hnone] at hcount
  exact get_accepted hm h ha hf hb
    (hrun.append (runsTo_branch_false hcount (raiseKey_runsTo hv)))

/-- The value under a key is given, converted. -/
theorem get_answers (hb : Catalog.builtin.acceptsValue v key.type = .ok true) {d y : Datum}
    {m : HostValue} (hd : key.type.toDatum v = .ok d)
    (hsome : (Content.map entries).get? d = some y) (hy : y.Loads t m) :
    Answers c Vocabulary.map.pointer "__getitem__" [.host v] (.map entries)
      (.returned (.host m) (.map entries)) := by
  have hk : "k" ∈ Argument.localNames := by decide
  obtain ⟨env, hrun, hd, hself, -⟩ := h.convertOr_runsTo hk (by decide) (h.envOf_self v)
    (envOf_name key.name v) hd [raiseKey key.expr]
  have hcount := @tests_count c env (.map entries) d hd
  rw [Content.contains_map, hsome] at hcount
  exact get_accepted hm h ha hf hb (hrun.append (runsTo_branch_true hcount
    (found_runsTo hf hself hd hsome hy)))

end

end WrapGen.Bundle
