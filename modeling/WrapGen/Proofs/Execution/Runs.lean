import WrapGen.Proofs.Execution.Frame

/-!
# Runs that end

`Runs ss env env'` says that the block `ss` ends in `env'`: its loops need some
number of rounds, and with at least as many the run is the same. One rule for
each kind of statement that conversions are made of; the rules of the two loops
take an invariant that holds for what was collected so far.

* `runs_forEach`: a loop over the items of a list.
* `runs_loop`: a walk over the places of a container, one after the other.
-/
namespace WrapGen.Execution

open Code

/-- Running a block ends in `env'`, once its loops may take enough rounds. -/
def Runs (ss : List Stmt) (env env' : Env) : Prop :=
  ∃ least, ∀ rounds, least ≤ rounds → execAll rounds ss env = .normal env'

section
variable {ss ts : List Stmt} {env env' env'' : Env}

theorem Runs.nil : Runs [] env env := ⟨0, fun _ _ => rfl⟩

/-- A block ends in one environment. -/
theorem Runs.unique (h : Runs ss env env') (h' : Runs ss env env'') : env' = env'' := by
  obtain ⟨m, hm⟩ := h
  obtain ⟨n, hn⟩ := h'
  have e1 := hm (max m n) (Nat.le_max_left m n)
  have e2 := hn (max m n) (Nat.le_max_right m n)
  rw [e1] at e2
  cases e2
  rfl

theorem execAll_append (rounds : Nat) : ∀ (ss ts : List Stmt) (env : Env),
    execAll rounds (ss ++ ts) env = (execAll rounds ss env).andThen (execAll rounds ts)
  | [], ts, env => rfl
  | s :: ss, ts, env => by
    simp only [List.cons_append, execAll]
    cases exec rounds s env with
    | normal env' => exact execAll_append rounds ss ts env'
    | returned v => rfl
    | raised e env' => rfl
    | stuck => rfl
    | unfinished => rfl

theorem Runs.append (h : Runs ss env env') (h' : Runs ts env' env'') :
    Runs (ss ++ ts) env env'' := by
  obtain ⟨m, hm⟩ := h
  obtain ⟨n, hn⟩ := h'
  refine ⟨max m n, fun rounds hr => ?_⟩
  rw [execAll_append, hm rounds (by omega)]
  exact hn rounds (by omega)

theorem Runs.cons {s : Stmt} (h : Runs [s] env env') (h' : Runs ss env' env'') :
    Runs (s :: ss) env env'' :=
  h.append h'

/-- A block leaves the names alone that it does not change. -/
theorem Runs.agreeOff (h : Runs ss env env') : AgreeOff (changesAll ss) env env' := by
  obtain ⟨n, hn⟩ := h
  have := execAll_keeps n ss env
  rw [hn n (Nat.le_refl n)] at this
  exact this

/-! ## Expressions -/

theorem eval_name {x : String} {v : Val} (h : env x = some v) : eval env (.name x) = .ok v := by
  simp only [eval, h, given]

theorem eval_method {e : Expr} {v w : Val} {name : String} (h : eval env e = .ok v)
    (hw : v.method name [] = some w) : eval env (e.method name []) = .ok w := by
  unfold Expr.method eval
  rw [h]
  simp only [evalAll, bind, Except.bind, hw, given]

theorem eval_attr {e : Expr} {v w : Val} {name : String} (h : eval env e = .ok v)
    (hw : v.field name = some w) : eval env (.attr e name) = .ok w := by
  unfold eval
  rw [h]
  simp only [bind, Except.bind, hw, given]

theorem eval_deref {e : Expr} {v w : Val} (h : eval env e = .ok v) (hw : v.deref = some w) :
    eval env (.deref e) = .ok w := by
  unfold eval
  rw [h]
  simp only [bind, Except.bind, hw, given]

theorem eval_call {function : String} {args : List Expr} {vs : List Val} {w : Val}
    (hs : evalAll env args = .ok vs) (hw : callFunction function vs = some w) :
    eval env (.callName function args) = .ok w := by
  unfold Expr.callName eval
  rw [hs]
  simp only [bind, Except.bind, hw, given]

theorem eval_cast {e : Expr} {v w : Val} {type : String} (h : eval env e = .ok v)
    (hw : v.castTo type = .ok w) : eval env (.cast type e) = .ok w := by
  unfold eval
  rw [h]
  exact hw

theorem eval_construct {type : String} {args : List Expr} {vs : List Val} {w : Val}
    (hs : evalAll env args = .ok vs) (hw : construct type vs = some w) :
    eval env (.construct type args) = .ok w := by
  unfold eval
  rw [hs]
  simp only [bind, Except.bind, hw, given]

theorem evalAll_cons {e : Expr} {es : List Expr} {v : Val} {vs : List Val}
    (h : eval env e = .ok v) (hs : evalAll env es = .ok vs) :
    evalAll env (e :: es) = .ok (v :: vs) := by
  unfold evalAll
  rw [h, hs]
  rfl

theorem holds_notEq {a b : Expr} {v w : Val} {differ : Bool} (hv : eval env a = .ok v)
    (hw : eval env b = .ok w) (hd : v.differs w = some differ) :
    holds env (.binary .notEq a b) = .ok differ := by
  simp only [holds, hv, hw, bind, Except.bind, hd, given]

/-! ## Simple statements -/

theorem runs_of_exec {s : Stmt} (h : ∀ rounds, exec rounds s env = .normal env') :
    Runs [s] env env' := by
  refine ⟨0, fun rounds _ => ?_⟩
  simp only [execAll, h rounds, Flow.andThen]

/-- Declarations have no effect. -/
theorem runs_decls : ∀ ss : List Stmt, (∀ s ∈ ss, ∃ type target, s = .decl type target) →
    Runs ss env env
  | [], _ => Runs.nil
  | s :: ss, h => by
    obtain ⟨type, target, rfl⟩ := h s (by simp)
    exact (runs_of_exec fun _ => rfl).cons (runs_decls ss fun t ht => h t (by simp [ht]))

theorem runs_assign {target value : Expr} {v : Val} (hv : eval env value = .ok v)
    (ha : assign env v target = .ok env') : Runs [.assign target value] env env' := by
  refine runs_of_exec fun _ => ?_
  simp only [exec, hv, bind, Except.bind, ha, Flow.feed]

theorem runs_expr {e : Expr} (h : perform env e = .ok env') : Runs [.expr e] env env' := by
  refine runs_of_exec fun _ => ?_
  simp only [exec, h, Flow.feed]

end

/-- A method that changes its receiver. -/
theorem runs_change {env : Env} {x name : String} {arg : Expr} {v old new : Val}
    (hv : eval env arg = .ok v) (ho : env x = some old) (hn : old.change name v = some new) :
    Runs [.expr ((Expr.name x).method name [arg])] env (env.bind x new) := by
  refine runs_expr ?_
  simp only [perform, Expr.method, hv, ho, hn, given, bind, Except.bind, pure, Except.pure]

/-- An assignment under a key. -/
theorem runs_put {env : Env} {x : String} {index value : Expr} {k v old new : Val}
    (hk : eval env index = .ok k) (hv : eval env value = .ok v) (ho : env x = some old)
    (hn : old.put k v = some new) :
    Runs [.assign (.index (.name x) index) value] env (env.bind x new) := by
  refine runs_assign hv ?_
  simp only [assign, hk, ho, hn, given, bind, Except.bind, pure, Except.pure]

/-- A position is moved on. -/
theorem runs_inc {env : Env} {x : String} {old new : Val} (ho : env x = some old)
    (hn : old.next = some new) : Runs [.expr (.inc (.name x))] env (env.bind x new) := by
  refine runs_expr ?_
  simp only [perform, ho, hn, given, bind, Except.bind, pure, Except.pure]

/-! ## Loops -/

section
variable {β δ : Type} {f : β → δ → β} {body : List Stmt}

/-- A loop over items that stand for `ds`, with an invariant for what was
collected from those so far. -/
theorem forLoop_invariant {targets : List String} {R : Val → δ → Prop} {Inv : β → Env → Prop}
    (step : ∀ v d acc env, R v d → Inv acc env → ∃ env₁ env₂,
      bindTargets targets v env = some env₁ ∧ Runs body env₁ env₂ ∧ Inv (f acc d) env₂)
    {vs : List Val} {ds : List δ} (h : List.Forall₂ R vs ds) :
    ∀ {acc : β} {env : Env}, Inv acc env → ∃ env' least, Inv (ds.foldl f acc) env' ∧
      ∀ rounds, least ≤ rounds → forLoop targets (execAll rounds body) vs env = .normal env' := by
  induction h with
  | nil => exact fun {_ env} hi => ⟨env, 0, hi, fun _ _ => rfl⟩
  | @cons v d vs ds hr _ ih =>
    intro acc env hi
    obtain ⟨env₁, env₂, hb, ⟨m, hm⟩, hi₂⟩ := step v d acc env hr hi
    obtain ⟨env', n, hi', hn⟩ := ih hi₂
    refine ⟨env', max m n, hi', fun rounds hr => ?_⟩
    simp only [forLoop, hb]
    rw [hm rounds (by omega)]
    exact hn rounds (by omega)

theorem runs_forEach (Inv : β → Env → Prop) {targets : List String} {source : Expr}
    {R : Val → δ → Prop} {w : Val} {vs : List Val} {ds : List δ} {acc : β} {env : Env}
    (hs : eval env source = .ok w) (hw : w.items = some vs) (h : List.Forall₂ R vs ds)
    (step : ∀ v d acc env, R v d → Inv acc env → ∃ env₁ env₂,
      bindTargets targets v env = some env₁ ∧ Runs body env₁ env₂ ∧ Inv (f acc d) env₂)
    (hi : Inv acc env) :
    ∃ env', Runs [.forEach targets source body] env env' ∧ Inv (ds.foldl f acc) env' := by
  obtain ⟨env', least, hi', hl⟩ := forLoop_invariant step h hi
  refine ⟨env', ⟨least, fun rounds hr => ?_⟩, hi'⟩
  simp only [execAll, exec, hs, bind, Except.bind, hw, given, Flow.feed, hl rounds hr, Flow.andThen]

/-- A walk that is at the place `i` and has the items `rest` to go. -/
theorem whileLoop_invariant {condition : Expr} {Inv : Nat → β → Env → Prop} {ds : List δ}
    (test : ∀ i acc env, i ≤ ds.length → Inv i acc env →
      holds env condition = .ok (i != ds.length))
    (step : ∀ i d acc env, ds[i]? = some d → Inv i acc env → ∃ env',
      Runs body env env' ∧ Inv (i + 1) (f acc d) env') :
    ∀ (rest : List δ) (i : Nat) (acc : β) (env : Env), ds.drop i = rest → i ≤ ds.length →
      Inv i acc env → ∃ env' least, Inv ds.length (rest.foldl f acc) env' ∧
        ∀ rounds k, least ≤ rounds → rest.length < k →
          whileLoop (fun env => holds env condition) (execAll rounds body) k env = .normal env'
  | [], i, acc, env, hd, hl, hi => by
    have hn : i = ds.length := by
      have := List.drop_eq_nil_iff.mp hd
      omega
    refine ⟨env, 0, hn ▸ hi, fun rounds k _ hk => ?_⟩
    obtain ⟨k, rfl⟩ := Nat.exists_eq_add_of_lt hk
    simp [whileLoop, test i acc env hl hi, Flow.feed, hn]
  | d :: rest, i, acc, env, hd, hl, hi => by
    have hlt : i < ds.length := by
      by_contra hge
      rw [List.drop_eq_nil_of_le (by omega)] at hd
      cases hd
    rw [List.drop_eq_getElem_cons hlt] at hd
    obtain ⟨hget, hrest⟩ := List.cons.inj hd
    have hd' : ds[i]? = some d := by rw [List.getElem?_eq_getElem hlt, hget]
    obtain ⟨env₁, ⟨m, hm⟩, hi₁⟩ := step i d acc env hd' hi
    obtain ⟨env', n, hi', hn⟩ := whileLoop_invariant test step rest (i + 1) (f acc d) env₁ hrest
      hlt hi₁
    refine ⟨env', max m n, hi', fun rounds k hr hk => ?_⟩
    obtain ⟨k, rfl⟩ : ∃ j, k = j + 1 := ⟨k - 1, by omega⟩
    have hne : (i != ds.length) = true := by simpa using Nat.ne_of_lt hlt
    simp only [whileLoop, test i acc env hl hi, Flow.feed, hne, if_true]
    rw [hm rounds (by omega)]
    exact hn rounds k (by omega) (by simpa using hk)

theorem runs_loop {condition : Expr} {Inv : Nat → β → Env → Prop} {ds : List δ} {acc : β}
    {env : Env}
    (test : ∀ i acc env, i ≤ ds.length → Inv i acc env →
      holds env condition = .ok (i != ds.length))
    (step : ∀ i d acc env, ds[i]? = some d → Inv i acc env → ∃ env',
      Runs body env env' ∧ Inv (i + 1) (f acc d) env')
    (hi : Inv 0 acc env) :
    ∃ env', Runs [.loop condition body] env env' ∧ Inv ds.length (ds.foldl f acc) env' := by
  obtain ⟨env', least, hi', hl⟩ :=
    whileLoop_invariant test step ds 0 acc env rfl (Nat.zero_le _) hi
  refine ⟨env', ⟨max least (ds.length + 1), fun rounds hr => ?_⟩, hi'⟩
  simp only [execAll, exec, hl rounds rounds (by omega) (by omega), Flow.andThen]

end

end WrapGen.Execution
