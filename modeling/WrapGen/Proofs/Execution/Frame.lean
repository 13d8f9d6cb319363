import WrapGen.Proofs.Execution.Basic
import WrapGen.Proofs.Results

/-!
# What running code reads and changes

The value of an expression depends on its `names` alone, and statements change
nothing but the names that they assign to, bind in a loop or call a method on
(`changes`).

* `eval_congr`: environments that agree on the names of an expression give it
  the same value.
* `exec_keeps`, `execAll_keeps`: the environment in which a run ends is the one
  it started in, outside the names that the statements change.
-/
namespace WrapGen.Execution

open Code

mutual

/-- The names that the value of an expression depends on. -/
def names : Expr → List String
  | .name x => [x]
  | .attr e _ => names e
  | .call (.attr e _) args => names e ++ namesAll args
  | .call _ args => namesAll args
  | .cast _ e => names e
  | .deref e => names e
  | .construct _ args => namesAll args
  | .list items => namesAll items
  | _ => []
termination_by structural e => e

/-- The names of the expressions of a list. -/
def namesAll : List Expr → List String
  | [] => []
  | e :: es => names e ++ namesAll es
termination_by structural es => es

end

/-- The name that a target starts with. -/
def root : Expr → List String
  | .name x => [x]
  | .attr e _ => root e
  | .index e _ => root e
  | .inc e => root e
  | .call e _ => root e
  | _ => []

mutual

/-- The names that a statement may change. -/
def changes : Stmt → List String
  | .assign target _ => root target
  | .expr e => root e
  | .forEach targets _ body => targets ++ changesAll body
  | .loop _ body => changesAll body
  | .attempt body _ handler => changesAll body ++ changesAll handler
  | _ => []
termination_by structural s => s

/-- The names that the statements of a block may change. -/
def changesAll : List Stmt → List String
  | [] => []
  | s :: ss => changes s ++ changesAll ss
termination_by structural ss => ss

end

theorem changesAll_append : ∀ ss ts : List Stmt,
    changesAll (ss ++ ts) = changesAll ss ++ changesAll ts
  | [], _ => rfl
  | s :: ss, ts => by
    rw [List.cons_append, changesAll, changesAll, changesAll_append ss ts, List.append_assoc]

/-! ## Values depend on names -/

mutual

/-- Environments that agree on the names of an expression give it one value. -/
theorem eval_congr {a b : Env} : ∀ e : Expr, (∀ x ∈ names e, a x = b x) → eval a e = eval b e
  | .name x, h => by
    have hx := h x (by simp [names])
    simp only [eval, hx]
  | .attr e name, h => by simp only [eval, eval_congr e h]
  | .call (.attr e name) args, h => by
    have he := eval_congr e fun x hx => h x (by simp [names, hx])
    have hs := evalAll_congr args fun x hx => h x (by simp [names, hx])
    simp only [eval, he, hs]
  | .call (.name function) args, h => by simp only [eval, evalAll_congr args h]
  | .cast type e, h => by simp only [eval, eval_congr e h]
  | .deref e, h => by simp only [eval, eval_congr e h]
  | .construct type args, h => by simp only [eval, evalAll_congr args h]
  | .list items, h => by simp only [eval, evalAll_congr items h]
  | .dict [], _ | .dict (_ :: _), _ | .literal _, _ | .hole, _ | .scratch _, _ | .index _ _, _
  | .inc _, _ | .binary .., _ | .not _, _ | .isInstance .., _ | .hasAttr .., _ | .alloc _, _ => by
    simp only [eval]
  | .call .hole _, _ | .call (.scratch _) _, _ | .call (.literal _) _, _ | .call (.call ..) _, _
  | .call (.index ..) _, _ | .call (.cast ..) _, _ | .call (.deref _) _, _ | .call (.inc _) _, _
  | .call (.binary ..) _, _ | .call (.not _) _, _ | .call (.isInstance ..) _, _
  | .call (.hasAttr ..) _, _ | .call (.construct ..) _, _ | .call (.alloc _) _, _
  | .call (.list _) _, _ | .call (.dict _) _, _ => by
    simp only [eval]

theorem evalAll_congr {a b : Env} : ∀ es : List Expr,
    (∀ x ∈ namesAll es, a x = b x) → evalAll a es = evalAll b es
  | [], _ => rfl
  | e :: es, h => by
    have he := eval_congr e fun x hx => h x (by simp [namesAll, hx])
    have hs := evalAll_congr es fun x hx => h x (by simp [namesAll, hx])
    simp only [evalAll, he, hs]

end

/-! ## Runs change what they name -/

/-- The environment `b` is `a` outside the names of a list. -/
def AgreeOff (ns : List String) (a b : Env) : Prop := ∀ x, x ∉ ns → b x = a x

theorem AgreeOff.rfl {ns : List String} {a : Env} : AgreeOff ns a a := fun _ _ => Eq.refl _

theorem AgreeOff.trans {ns : List String} {a b c : Env} (h : AgreeOff ns a b)
    (h' : AgreeOff ns b c) : AgreeOff ns a c := by
  intro x hx
  rw [h' x hx, h x hx]

theorem AgreeOff.mono {ms ns : List String} {a b : Env} (hs : ∀ x ∈ ms, x ∈ ns)
    (h : AgreeOff ms a b) : AgreeOff ns a b :=
  fun x hx => h x fun hm => hx (hs x hm)

@[simp] theorem bind_self (env : Env) (x : String) (v : Val) : env.bind x v x = some v :=
  if_pos rfl

theorem bind_of_ne {env : Env} {x y : String} {v : Val} (h : y ≠ x) : env.bind x v y = env y :=
  if_neg h

theorem bind_agreeOff {ns : List String} {x : String} (hx : x ∈ ns) (env : Env) (v : Val) :
    AgreeOff ns env (env.bind x v) := by
  intro y hy
  exact bind_of_ne fun h => hy (h ▸ hx)

/-- A run ends in the environment it started in, outside the names of a list. -/
def Flow.Keeps (ns : List String) (env : Env) : Flow → Prop
  | .normal env' => AgreeOff ns env env'
  | .raised _ env' => AgreeOff ns env env'
  | _ => True

section
variable {ns : List String} {env : Env}

theorem Flow.Keeps.mono {ms : List String} {f : Flow} (hs : ∀ x ∈ ms, x ∈ ns)
    (h : f.Keeps ms env) : f.Keeps ns env := by
  cases f with
  | normal env' => exact AgreeOff.mono hs h
  | raised e env' => exact AgreeOff.mono hs h
  | returned v => trivial
  | stuck => trivial
  | unfinished => trivial

/-- A run that goes on from an environment that was kept keeps what it keeps. -/
theorem Flow.Keeps.of_agreeOff {env' : Env} {f : Flow} (h : AgreeOff ns env env')
    (hf : f.Keeps ns env') : f.Keeps ns env := by
  cases f with
  | normal _ => exact h.trans hf
  | raised _ _ => exact h.trans hf
  | returned v => trivial
  | stuck => trivial
  | unfinished => trivial

theorem Flow.Keeps.andThen {f : Flow} {k : Env → Flow} (h : f.Keeps ns env)
    (hk : ∀ env', (k env').Keeps ns env') : (f.andThen k).Keeps ns env := by
  cases f with
  | normal env' => exact (hk env').of_agreeOff h
  | raised e env' => exact h
  | returned v => trivial
  | stuck => trivial
  | unfinished => trivial

theorem feed_keeps {α : Type} {x : Except Halt α} {k : α → Flow}
    (hk : ∀ a, x = .ok a → (k a).Keeps ns env) : (Flow.feed env x k).Keeps ns env := by
  cases x with
  | ok a => exact hk a rfl
  | error e =>
    cases e with
    | raised e => exact AgreeOff.rfl
    | stuck => trivial

theorem bindTargets_agreeOff {targets : List String} {v : Val} {env' : Env}
    (h : bindTargets targets v env = some env') : AgreeOff targets env env' := by
  unfold bindTargets at h
  split at h
  · cases h
    exact bind_agreeOff (by simp) _ _
  · cases h
    exact (bind_agreeOff (by simp) _ _).trans (bind_agreeOff (by simp) _ _)
  · cases h

theorem forLoop_keeps {targets : List String} {body : Env → Flow} (ht : ∀ x ∈ targets, x ∈ ns)
    (hb : ∀ env, (body env).Keeps ns env) : ∀ (vs : List Val) (env : Env),
    (forLoop targets body vs env).Keeps ns env
  | [], env => AgreeOff.rfl
  | v :: vs, env => by
    unfold forLoop
    split
    · rename_i env' he
      exact (Flow.Keeps.andThen (hb env') (forLoop_keeps ht hb vs)).of_agreeOff
        (AgreeOff.mono ht (bindTargets_agreeOff he))
    · trivial

theorem whileLoop_keeps {test : Env → Except Halt Bool} {body : Env → Flow}
    (hb : ∀ env, (body env).Keeps ns env) : ∀ (rounds : Nat) (env : Env),
    (whileLoop test body rounds env).Keeps ns env
  | 0, env => trivial
  | rounds + 1, env => by
    unfold whileLoop
    refine feed_keeps fun b _ => ?_
    split
    · exact Flow.Keeps.andThen (hb env) (whileLoop_keeps hb rounds)
    · exact AgreeOff.rfl

end

theorem assign_agreeOff {env env' : Env} {v : Val} {target : Expr}
    (h : assign env v target = .ok env') : AgreeOff (root target) env env' := by
  unfold assign at h
  split at h
  · cases h
    exact bind_agreeOff (by simp [root]) _ _
  · obtain ⟨new, -, h⟩ := bind_eq_ok h
    cases h
    exact bind_agreeOff (by simp [root]) _ _
  · obtain ⟨k, -, h⟩ := bind_eq_ok h
    obtain ⟨old, -, h⟩ := bind_eq_ok h
    obtain ⟨new, -, h⟩ := bind_eq_ok h
    cases h
    exact bind_agreeOff (by simp [root]) _ _
  · cases h

theorem perform_agreeOff {env env' : Env} {e : Expr} (h : perform env e = .ok env') :
    AgreeOff (root e) env env' := by
  unfold perform at h
  split at h
  · obtain ⟨old, -, h⟩ := bind_eq_ok h
    obtain ⟨new, -, h⟩ := bind_eq_ok h
    cases h
    exact bind_agreeOff (by simp [root]) _ _
  · obtain ⟨v, -, h⟩ := bind_eq_ok h
    obtain ⟨old, -, h⟩ := bind_eq_ok h
    obtain ⟨new, -, h⟩ := bind_eq_ok h
    cases h
    exact bind_agreeOff (by simp [root]) _ _
  · cases h

mutual

/-- A statement leaves the names alone that it does not change. -/
theorem exec_keeps (rounds : Nat) : ∀ (s : Stmt) (env : Env),
    (exec rounds s env).Keeps (changes s) env
  | .decl _ _, env => AgreeOff.rfl
  | .assign target value, env => by
    refine feed_keeps fun env' h => ?_
    obtain ⟨v, -, h⟩ := bind_eq_ok h
    exact assign_agreeOff h
  | .expr e, env => feed_keeps fun env' h => perform_agreeOff h
  | .forEach targets source body, env => by
    refine feed_keeps fun vs _ => ?_
    refine forLoop_keeps (fun x hx => ?_) (fun env => ?_) vs env
    · simp [changes, hx]
    · exact (execAll_keeps rounds body env).mono fun x hx => by simp [changes, hx]
  | .loop condition body, env => whileLoop_keeps (execAll_keeps rounds body) rounds env
  | .ret (some e), env => feed_keeps fun _ _ => trivial
  | .ret none, _ => trivial
  | .attempt body exception handler, env => by
    have hb : (execAll rounds body env).Keeps (changes (.attempt body exception handler)) env :=
      (execAll_keeps rounds body env).mono fun x hx => by simp [changes, hx]
    unfold exec
    split
    · rename_i e env' he
      rw [he] at hb
      split
      · exact ((execAll_keeps rounds handler env').mono fun x hx => by
          simp [changes, hx]).of_agreeOff hb
      · exact hb
    · exact hb
  | .comment _, env => AgreeOff.rfl
  | .blank, env => AgreeOff.rfl
  | .branch .., _ | .raise _, _ | .delete _, _ => trivial

/-- A block leaves the names alone that it does not change. -/
theorem execAll_keeps (rounds : Nat) : ∀ (ss : List Stmt) (env : Env),
    (execAll rounds ss env).Keeps (changesAll ss) env
  | [], env => AgreeOff.rfl
  | s :: ss, env => by
    refine Flow.Keeps.andThen ?_ fun env' => ?_
    · exact (exec_keeps rounds s env).mono fun x hx => by simp [changesAll, hx]
    · exact (execAll_keeps rounds ss env').mono fun x hx => by simp [changesAll, hx]

end

end WrapGen.Execution
