import WrapGen.Proofs.Execution.Method

/-!
# Methods that end

Conversion code does within a method what it does alone, and the container stays
as it is (`run_of_exec`, `Runs.runsTo`).

`RunsTo r ss frame f` says that a block of a method ends as `f`, once its loops and
the calls in it may go far enough. There is one rule for each kind of statement
that methods are made of; `Tests` does the same for conditions. A call ends as
the body of its method does (`answers_of_runsTo`).
-/
namespace WrapGen.Execution

open Code

/-! ## Conversion code within methods -/

section
variable {r : Receiver} {rounds : Nat} {env : Env} {content : Content}

theorem eval_field (hself : env "self" = none) {field : String} {c : Expr}
    (h : isField field c = true) : eval env c = .error .stuck := by
  unfold isField at h
  split at h
  · rename_i x name
    obtain ⟨rfl, -⟩ : x = "self" ∧ name = field := by simpa using h
    simp only [eval, hself, given, bind, Except.bind]
  · cases h

/-- What conversion code has a value for has that value in a method. -/
theorem value_eq_eval (hself : env "self" = none) {e : Expr} (h : eval env e ≠ .error .stuck) :
    value r ⟨env, content⟩ e = eval env e := by
  unfold value
  split
  · exact absurd rfl h
  · exact absurd rfl h
  · exact absurd rfl h
  · rename_i c name arg
    split
    · rename_i hc
      refine absurd ?_ h
      unfold eval
      rw [eval_field hself hc]
      rfl
    · rfl
  · exact absurd rfl h
  · rfl

theorem value_of_eval (hself : env "self" = none) {e : Expr} {v : Val}
    (h : eval env e = .ok v) : value r ⟨env, content⟩ e = .ok v :=
  (value_eq_eval hself (by rw [h]; exact nofun)).trans h

theorem assignIn_eq_assign {v : Val} {target : Expr} (h : assign env v target ≠ .error .stuck) :
    assignIn r ⟨env, content⟩ v target =
      (assign env v target).map fun env => ⟨env, content⟩ := by
  unfold assignIn
  split
  · exact absurd rfl h
  · cases assign env v target <;> rfl

theorem performIn_eq_perform {e : Expr} (h : perform env e ≠ .error .stuck) :
    performIn r ⟨env, content⟩ e = (perform env e).map fun env => ⟨env, content⟩ := by
  have hrest : ∀ x : Except Halt Env, (do
      let env ← x
      return (⟨env, content⟩ : Frame)) = x.map fun env => ⟨env, content⟩ := by
    intro x
    cases x <;> rfl
  unfold performIn
  split
  · rename_i c name arg
    split
    · rename_i hc
      -- a field of the receiver is no name
      refine absurd ?_ h
      unfold isField at hc
      split at hc
      · rfl
      · cases hc
    · exact hrest _
  · exact hrest _

theorem feed_within (x : Except Halt Env) :
    MethodFlow.feed ⟨env, content⟩ (x.map fun env => ⟨env, content⟩) .normal =
      (Flow.feed env x .normal).within content := by
  cases x with
  | ok env' => rfl
  | error e => cases e <;> rfl

mutual

/-- Within a method conversion code does what it does alone. -/
theorem run_of_exec : ∀ {s : Stmt} {env : Env}, env "self" = none → "self" ∉ changes s →
    exec rounds s env ≠ .stuck →
    run r rounds s ⟨env, content⟩ = (exec rounds s env).within content
  | .assign target e, env, hself, _, h => by
    have hv : eval env e ≠ .error .stuck := by
      intro he
      apply h
      simp only [exec, he, bind, Except.bind, Flow.feed]
    have hx : (value r ⟨env, content⟩ e >>= fun v => assignIn r ⟨env, content⟩ v target) =
        (eval env e >>= fun v => assign env v target).map fun env => ⟨env, content⟩ := by
      rw [value_eq_eval hself hv]
      cases he : eval env e with
      | error x => rfl
      | ok v =>
        refine assignIn_eq_assign fun ha => h ?_
        simp only [exec, he, bind, Except.bind, ha, Flow.feed]
    simp only [run, exec, hx, feed_within]
  | .expr e, env, _, _, h => by
    have hx : perform env e ≠ .error .stuck := by
      intro hp
      apply h
      simp only [exec, hp, Flow.feed]
    simp only [run, exec, performIn_eq_perform hx, feed_within]
  | .ret (some e), env, hself, _, h => by
    have hv : eval env e ≠ .error .stuck := by
      intro he
      apply h
      simp only [exec, he, Flow.feed]
    simp only [run, exec, value_eq_eval hself hv]
    cases eval env e with
    | ok v => rfl
    | error x => cases x <;> rfl
  | .attempt body exception handler, env, hself, hs, h => by
    have hbody : "self" ∉ changesAll body := fun hx => hs (by simp [changes, hx])
    have hhandler : "self" ∉ changesAll handler := fun hx => hs (by simp [changes, hx])
    simp only [exec] at h ⊢
    have hne : execAll rounds body env ≠ .stuck := by
      intro he
      rw [he] at h
      exact h rfl
    have hkeeps := execAll_keeps rounds body env
    rw [run, runAll_of_execAll hself hbody hne]
    cases he : execAll rounds body env with
    | raised e env' =>
      rw [he] at h hkeeps
      by_cases hx : e = exception
      · simp only [Flow.within, if_pos hx] at h ⊢
        exact runAll_of_execAll ((hkeeps "self" hbody).trans hself) hhandler h
      · simp only [Flow.within, if_neg hx]
    | normal env' => rfl
    | returned v => rfl
    | stuck => rfl
    | unfinished => rfl
  | .branch .., _, _, _, h => absurd rfl h
  | .raise _, _, _, _, h => absurd rfl h
  | .decl .., _, _, _, _ | .forEach .., _, _, _, _ | .loop .., _, _, _, _ | .ret none, _, _, _, _
  | .delete _, _, _, _, _ | .comment _, _, _, _, _ | .blank, _, _, _, _ => by
    simp only [run]

theorem runAll_of_execAll : ∀ {ss : List Stmt} {env : Env}, env "self" = none →
    "self" ∉ changesAll ss → execAll rounds ss env ≠ .stuck →
    runAll r rounds ss ⟨env, content⟩ = (execAll rounds ss env).within content
  | [], env, _, _, _ => rfl
  | s :: ss, env, hself, hs, h => by
    have hfirst : "self" ∉ changes s := fun hx => hs (by simp [changesAll, hx])
    have hrest : "self" ∉ changesAll ss := fun hx => hs (by simp [changesAll, hx])
    simp only [execAll] at h ⊢
    have hne : exec rounds s env ≠ .stuck := by
      intro he
      rw [he] at h
      exact h rfl
    have hkeeps := exec_keeps rounds s env
    rw [runAll, run_of_exec hself hfirst hne]
    cases he : exec rounds s env with
    | normal env' =>
      rw [he] at h hkeeps
      exact runAll_of_execAll ((hkeeps "self" hfirst).trans hself) hrest h
    | returned v => rfl
    | raised e env' => rfl
    | stuck => rfl
    | unfinished => rfl

end

end

/-! ## Blocks of methods -/

/-- A block of a method ends so, once its loops and the calls in it may go far enough. -/
def RunsTo (r : Nat → Receiver) (ss : List Stmt) (frame : Frame) (f : MethodFlow) : Prop :=
  ∃ least, ∀ rounds, least ≤ rounds → runAll (r rounds) rounds ss frame = f

section
variable {r : Nat → Receiver} {ss ts : List Stmt} {env env' : Env} {content content' : Content}
  {frame frame' : Frame} {f : MethodFlow}

theorem runAll_append (r : Receiver) (rounds : Nat) : ∀ (ss ts : List Stmt) (frame : Frame),
    runAll r rounds (ss ++ ts) frame = (runAll r rounds ss frame).andThen (runAll r rounds ts)
  | [], _, _ => rfl
  | s :: ss, ts, frame => by
    simp only [List.cons_append, runAll]
    cases run r rounds s frame with
    | normal frame' => exact runAll_append r rounds ss ts frame'
    | returned v content => rfl
    | raised e frame' => rfl
    | stuck => rfl
    | unfinished => rfl

theorem RunsTo.nil : RunsTo r [] frame (.normal frame) := ⟨0, fun _ _ => rfl⟩

theorem RunsTo.append (h : RunsTo r ss frame (.normal frame')) (h' : RunsTo r ts frame' f) :
    RunsTo r (ss ++ ts) frame f := by
  obtain ⟨m, hm⟩ := h
  obtain ⟨n, hn⟩ := h'
  refine ⟨max m n, fun rounds hr => ?_⟩
  rw [runAll_append, hm rounds (by omega)]
  exact hn rounds (by omega)

theorem RunsTo.cons {s : Stmt} (h : RunsTo r [s] frame (.normal frame'))
    (h' : RunsTo r ss frame' f) : RunsTo r (s :: ss) frame f :=
  h.append h'

/-- What follows a return is not run. -/
theorem RunsTo.of_returned {v : Val} (h : RunsTo r ss frame (.returned v content)) :
    RunsTo r (ss ++ ts) frame (.returned v content) := by
  obtain ⟨n, hn⟩ := h
  refine ⟨n, fun rounds hr => ?_⟩
  rw [runAll_append, hn rounds hr]
  rfl

/-- What follows an exception is not run. -/
theorem RunsTo.of_raised {e : String} (h : RunsTo r ss frame (.raised e frame')) :
    RunsTo r (ss ++ ts) frame (.raised e frame') := by
  obtain ⟨n, hn⟩ := h
  refine ⟨n, fun rounds hr => ?_⟩
  rw [runAll_append, hn rounds hr]
  rfl

theorem runsTo_of_run {s : Stmt} (h : ∀ r rounds, run r rounds s frame = f) :
    RunsTo r [s] frame f := by
  refine ⟨0, fun rounds _ => ?_⟩
  simp only [runAll, h]
  cases f <;> rfl

/-- Conversion code ends in a method as it does alone. -/
theorem runsTo_of_execAll {f : Flow}
    (h : ∃ least, ∀ rounds, least ≤ rounds → execAll rounds ss env = f) (hf : f ≠ .stuck)
    (hself : env "self" = none) (hs : "self" ∉ changesAll ss) :
    RunsTo r ss ⟨env, content⟩ (f.within content) := by
  obtain ⟨n, hn⟩ := h
  refine ⟨n, fun rounds hr => ?_⟩
  rw [runAll_of_execAll hself hs (by rw [hn rounds hr]; exact hf), hn rounds hr]

/-- Conversion code runs in a method, and the container stays as it is. -/
theorem Runs.runsTo (h : Runs ss env env') (hself : env "self" = none)
    (hs : "self" ∉ changesAll ss) : RunsTo r ss ⟨env, content⟩ (.normal ⟨env', content⟩) :=
  runsTo_of_execAll h nofun hself hs

/-- Declarations have no effect. -/
theorem runsTo_decls : ∀ ss : List Stmt, (∀ s ∈ ss, ∃ type target, s = .decl type target) →
    RunsTo r ss frame (.normal frame)
  | [], _ => RunsTo.nil
  | s :: ss, h => by
    obtain ⟨type, target, rfl⟩ := h s List.mem_cons_self
    exact (runsTo_of_run fun _ _ => rfl).cons
      (runsTo_decls ss fun t ht => h t (List.mem_cons_of_mem _ ht))

end

/-! ## Statements of methods -/

/-- A condition goes on with `b`. -/
def Tests (r : Nat → Receiver) (frame : Frame) (condition : Expr) (b : Bool) : Prop :=
  ∃ least, ∀ rounds, least ≤ rounds → ∀ k, test (r rounds) frame condition k = k b frame

section
variable {r : Nat → Receiver} {frame frame' : Frame} {f : MethodFlow} {condition : Expr}
  {body otherwise : List Stmt} {v : Val}

/-- A return of a value that does not depend on the receiver. -/
theorem runsTo_give {e : Expr} (h : ∀ rounds, value (r rounds) frame e = .ok v) :
    RunsTo r [.give e] frame (.returned v frame.content) := by
  refine ⟨0, fun rounds _ => ?_⟩
  simp only [runAll, Stmt.give, run, h, MethodFlow.feed, MethodFlow.andThen]

theorem runsTo_raise {exception : String} {args : List Expr} {vs : List Val}
    (h : evalAll frame.env args = .ok vs) :
    RunsTo r [.raise (.callName exception args)] frame (.raised exception frame) := by
  refine ⟨0, fun rounds _ => ?_⟩
  simp only [runAll, run, exceptionOf, Expr.callName, h, bind, Except.bind, pure, Except.pure,
    MethodFlow.feed, MethodFlow.andThen]

/-- A branch whose condition holds runs its block. -/
theorem runsTo_branch_true {rest : Option (List Stmt)} (ht : Tests r frame condition true)
    (h : RunsTo r body frame f) : RunsTo r [.branch [(condition, body)] rest] frame f := by
  obtain ⟨m, hm⟩ := ht
  obtain ⟨n, hn⟩ := h
  refine ⟨max m n, fun rounds hr => ?_⟩
  simp only [runAll, run, runArms, hm rounds (by omega), if_true, hn rounds (by omega)]
  cases f <;> rfl

/-- A branch whose condition does not hold runs the other block, if there is one. -/
theorem runsTo_branch_false {rest : Option (List Stmt)} (ht : Tests r frame condition false)
    (h : RunsTo r (rest.getD []) frame f) :
    RunsTo r [.branch [(condition, body)] rest] frame f := by
  obtain ⟨m, hm⟩ := ht
  obtain ⟨n, hn⟩ := h
  refine ⟨max m n, fun rounds hr => ?_⟩
  have hrest : runOption (r rounds) rounds rest frame =
      runAll (r rounds) rounds (rest.getD []) frame := by
    cases rest <;> rfl
  simp only [runAll, run, runArms, hm rounds (by omega), Bool.false_eq_true, if_false, hrest,
    hn rounds (by omega)]
  cases f <;> rfl

theorem runsTo_when_true (ht : Tests r frame condition true) (h : RunsTo r body frame f) :
    RunsTo r [.when condition body] frame f :=
  runsTo_branch_true ht h

theorem runsTo_when_false (ht : Tests r frame condition false) :
    RunsTo r [.when condition body] frame (.normal frame) :=
  runsTo_branch_false ht .nil

/-- A block that ends normally needs no handler. -/
theorem runsTo_attempt {exception : String} {handler : List Stmt}
    (h : RunsTo r body frame (.normal frame')) :
    RunsTo r [.attempt body exception handler] frame (.normal frame') := by
  obtain ⟨n, hn⟩ := h
  refine ⟨n, fun rounds hr => ?_⟩
  simp only [runAll, run, hn rounds hr, MethodFlow.andThen]

theorem runsTo_attempt_raised {exception : String} {handler : List Stmt}
    (h : RunsTo r body frame (.raised exception frame')) (hh : RunsTo r handler frame' f) :
    RunsTo r [.attempt body exception handler] frame f := by
  obtain ⟨m, hm⟩ := h
  obtain ⟨n, hn⟩ := hh
  refine ⟨max m n, fun rounds hr => ?_⟩
  simp only [runAll, run, hm rounds (by omega), if_true, hn rounds (by omega)]
  cases f <;> rfl

/-! ## The container -/

variable {pointer : String} (hp : ∀ rounds, (r rounds).pointer = pointer)
include hp

/-- A method that changes the container. -/
theorem runsTo_alter {name : String} {arg : Expr} {content : Content}
    (hv : eval frame.env arg = .ok v) (hc : alter frame.content name v = some content) :
    RunsTo r [.expr ((Expr.attr (.name "self") pointer).method name [arg])] frame
      (.normal { frame with content }) := by
  refine ⟨0, fun rounds _ => ?_⟩
  have hfield : isField (r rounds).pointer (.attr (.name "self") pointer) = true := by
    simp [isField, hp]
  simp only [runAll, run, performIn, Expr.method, hfield, if_true, hv, hc, given, bind, Except.bind,
    pure, Except.pure, MethodFlow.feed, MethodFlow.andThen]

/-- An assignment under a key of the container. -/
theorem runsTo_assignEntry {index e : Expr} {k : Val} {content : Content}
    (hk : eval frame.env index = .ok k) (hv : ∀ rounds, value (r rounds) frame e = .ok v)
    (hc : assignEntry frame.content k v = some content) :
    RunsTo r [.assign (.index (.deref (.attr (.name "self") pointer)) index) e] frame
      (.normal { frame with content }) := by
  refine ⟨0, fun rounds _ => ?_⟩
  have hfield : isField (r rounds).pointer (.attr (.name "self") pointer) = true := by
    simp [isField, hp]
  simp only [runAll, run, assignIn, hfield, if_true, hk, hv, hc, given, bind, Except.bind,
    pure, Except.pure, MethodFlow.feed, MethodFlow.andThen]

/-- The value of an entry of the container is bound to a name. -/
theorem runsTo_entryAt {index : Expr} {x : String} {k : Val} (hk : eval frame.env index = .ok k)
    (hv : entryAt frame.content k = some v) :
    RunsTo r [.assign (.name x) (.index (.deref (.attr (.name "self") pointer)) index)] frame
      (.normal { frame with env := frame.env.bind x v }) := by
  refine ⟨0, fun rounds _ => ?_⟩
  have hfield : isField (r rounds).pointer (.attr (.name "self") pointer) = true := by
    simp [isField, hp]
  simp only [runAll, run, value, assignIn, assign, hfield, if_true, hk, hv, given, bind, Except.bind,
    pure, Except.pure, MethodFlow.feed, MethodFlow.andThen]

/-- Whether the container holds a key. -/
theorem value_countPositive {key : Expr} {k : Datum} (hk : eval frame.env key = .ok (.datum k))
    (rounds : Nat) :
    value (r rounds) frame (.binary .lt (.int 0)
      ((Expr.attr (.name "self") pointer).method "count" [key])) =
      .ok (.ofBool (frame.content.contains k)) := by
  have hfield : isField (r rounds).pointer (.attr (.name "self") pointer) = true := by
    simp [isField, hp]
  have hzero : value (r rounds) frame (.int 0) = .ok (.host (.int 0)) := rfl
  simp only [value, Expr.method, hzero, hfield, if_true, hk, consult, given, bind, Except.bind]
  cases frame.content.contains k <;> rfl

end

/-! ## Conditions -/

theorem tests_of_value {r : Nat → Receiver} {frame : Frame} {condition : Expr} {b : Bool}
    (hshape : ∀ e x, condition ≠ .binary .isIn e (.name x))
    (h : ∀ rounds, value (r rounds) frame condition = .ok (.ofBool b)) :
    Tests r frame condition b := by
  refine ⟨0, fun rounds _ k => ?_⟩
  unfold test
  split
  · exact absurd rfl (hshape _ _)
  · simp only [h, bind, Except.bind, Val.truth_ofBool, given, MethodFlow.feed]

/-! ## Calls of methods -/

/-- The receiver of a method of a class. -/
def receiver (c : ClassDef) (pointer : String) (rounds : Nat) : Receiver :=
  ⟨pointer, fun v content => invoke c pointer rounds "__contains__" [v] content⟩

theorem receiver_pointer (c : ClassDef) (pointer : String) (rounds : Nat) :
    (receiver c pointer rounds).pointer = pointer := rfl

/-- A method answers as its body ends. -/
theorem answers_of_runsTo {c : ClassDef} {pointer name : String} {args : List Val}
    {content : Content} {kind : FunctionKind} {self : Param} {params : List Param}
    {returns doc : Option String} {body : List Stmt} {env : Env} {f : MethodFlow}
    (hm : c.methods.find? (fun f => f.name == name) =
      some ⟨kind, name, self :: params, returns, doc, some body⟩)
    (hb : bindParams params args = some env)
    (h : RunsTo (receiver c pointer) body ⟨env, content⟩ f) :
    Answers c pointer name args content f.ending := by
  obtain ⟨n, hn⟩ := h
  refine ⟨n + 1, fun rounds hr => ?_⟩
  obtain ⟨rounds, rfl⟩ : ∃ m, rounds = m + 1 := ⟨rounds - 1, by omega⟩
  simp only [invoke, hm, hb]
  exact congrArg MethodFlow.ending (hn rounds (by omega))

/-- A call of the membership test answers whether a value is in the receiver. -/
theorem Answers.tests {c : ClassDef} {pointer : String} {frame : Frame} {e : Expr} {v : Val}
    {b : Bool} (hv : eval frame.env e = .ok v)
    (h : Answers c pointer "__contains__" [v] frame.content
      (.returned (.ofBool b) frame.content)) :
    Tests (receiver c pointer) frame (.binary .isIn e (.name "self")) b := by
  obtain ⟨n, hn⟩ := h
  refine ⟨n, fun rounds hr k => ?_⟩
  have hmember : (receiver c pointer rounds).member v frame.content =
      .returned (.ofBool b) frame.content := hn rounds hr
  simp only [test, if_true, hv, hmember, Val.truth_ofBool, given, MethodFlow.feed]

end WrapGen.Execution
