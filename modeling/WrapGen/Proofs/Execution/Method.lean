import WrapGen.Code.Item
import WrapGen.Proofs.Execution.Runs
import WrapGen.Wrapper.Content

/-!
# Running methods

A meaning for the methods of wrapper classes. A method runs with an environment,
as conversion code does, and with the content of the container that a field of
its receiver points to. To what `exec` runs it adds branches, exceptions, truth
values, and all that is done to the container: its items are counted, inserted,
erased, looked up by index and assigned. Whether a value is in the receiver is
asked by a call of the method `__contains__` of the class.

Nothing is bound to `self` in an environment, so conversion code cannot look at
the receiver.

`invoke` calls a method by its name. Its number bounds the rounds of loops and
the calls within calls, and `Answers` says how a call ends once it is large
enough.
-/
namespace WrapGen.Execution

open Code

/-! ## Values -/

namespace Val

/-- A truth value; the host has the integers one and zero for them. -/
def ofBool (b : Bool) : Val := .host (.int (if b then 1 else 0))

/-- The truth of a value. -/
def truth : Val → Option Bool
  | .host (.int n) => some (n != 0)
  | _ => none

/-- Whether a host value is of one of several types. -/
def isOneOf (types : List String) : Val → Option Bool
  | .host v => some (v.kind?.any fun k => types.contains k.name)
  | _ => none

/-- Whether an integer is less than another. -/
def less : Val → Val → Option Bool
  | .host (.int m), .host (.int n) => some (decide (m < n))
  | _, _ => none

@[simp] theorem truth_ofBool (b : Bool) : (ofBool b).truth = some b := by
  cases b <;> rfl

end Val

/-! ## Containers -/

/-- A method of a container that changes nothing. -/
def consult (content : Content) : String → Val → Option Val
  | "count", .datum k => some (.host (.int (if content.contains k then 1 else 0)))
  | _, _ => none

/-- A method that changes the container. -/
def alter : Content → String → Val → Option Content
  | .set items, "insert", .datum x => some (.set (Ordered.insert id x items))
  | content, "erase", .datum k => some (content.erase k)
  | _, _, _ => none

/-- The value under a key of a map. Under an absent key the target language would
put a value of its own; that has no meaning here. -/
def entryAt : Content → Val → Option Val
  | .map entries, .datum k => (Ordered.find? Prod.fst k entries).map fun e => .datum e.2
  | _, _ => none

/-- The map with a value assigned under a key. -/
def assignEntry : Content → Val → Val → Option Content
  | .map entries, .datum k, .datum v => some (.map (Ordered.insert Prod.fst (k, v) entries))
  | _, _, _ => none

theorem alter_erase (content : Content) (k : Datum) :
    alter content "erase" (.datum k) = some (content.erase k) := by
  cases content <;> rfl

theorem entryAt_datum (content : Content) (k : Datum) :
    entryAt content (.datum k) = (content.get? k).map .datum := by
  cases content with
  | set items => rfl
  | map entries => simp only [entryAt, Content.get?, Option.map_map, Function.comp_def]

/-! ## Expressions and statements -/

/-- What a method runs with. -/
structure Frame where
  env : Env
  content : Content

/-- How a call of a method ends, and the content of the container then. -/
inductive Ending where
  | returned (v : Val) (content : Content)
  | raised (exception : String) (content : Content)
  | stuck
  | unfinished

/-- How a block of a method ends. -/
inductive MethodFlow where
  | normal (frame : Frame)
  | returned (v : Val) (content : Content)
  | raised (exception : String) (frame : Frame)
  | stuck
  | unfinished

/-- What a method is called on: the field that points to the container, and the
membership test. -/
structure Receiver where
  pointer : String
  member : Val → Content → Ending

/-- Whether an expression is a field of the receiver. -/
def isField (field : String) : Expr → Bool
  | .attr (.name x) name => x == "self" && name == field
  | _ => false

/-- The value of an expression: truth values, what the container says, and the
values of conversion code. -/
def value (r : Receiver) (frame : Frame) : Expr → Except Halt Val
  | .not e => do
    let v ← value r frame e
    let b ← given v.truth
    return .ofBool !b
  | .isInstance e types => do
    let v ← eval frame.env e
    let b ← given (v.isOneOf types)
    return .ofBool b
  | .binary .lt a b => do
    let v ← value r frame a
    let w ← value r frame b
    let b ← given (v.less w)
    return .ofBool b
  | .call (.attr c name) [arg] =>
    if isField r.pointer c then do
      let v ← eval frame.env arg
      given (consult frame.content name v)
    else eval frame.env (.call (.attr c name) [arg])
  | .index (.deref c) i =>
    if isField r.pointer c then do
      let k ← eval frame.env i
      given (entryAt frame.content k)
    else .error .stuck
  | e => eval frame.env e
termination_by structural e => e

/-- The frame after an assignment. -/
def assignIn (r : Receiver) (frame : Frame) (v : Val) : Expr → Except Halt Frame
  | .index (.deref c) i =>
    if isField r.pointer c then do
      let k ← eval frame.env i
      let content ← given (assignEntry frame.content k v)
      return { frame with content }
    else .error .stuck
  | target => do
    let env ← assign frame.env v target
    return { frame with env }

/-- The frame after an expression that stands as a statement. -/
def performIn (r : Receiver) (frame : Frame) : Expr → Except Halt Frame
  | .call (.attr c name) [arg] =>
    if isField r.pointer c then do
      let v ← eval frame.env arg
      let content ← given (alter frame.content name v)
      return { frame with content }
    else do
      let env ← perform frame.env (.call (.attr c name) [arg])
      return { frame with env }
  | e => do
    let env ← perform frame.env e
    return { frame with env }

/-- The name of the exception that an expression makes. -/
def exceptionOf (env : Env) : Expr → Except Halt String
  | .call (.name exception) args => do
    let _ ← evalAll env args
    return exception
  | _ => .error .stuck

namespace MethodFlow

/-- Goes on with a value, or ends as its computation does. -/
def feed {α : Type} (frame : Frame) (x : Except Halt α) (k : α → MethodFlow) : MethodFlow :=
  match x with
  | .ok a => k a
  | .error (.raised e) => .raised e frame
  | .error .stuck => .stuck

/-- Goes on with the frame of a run that ended normally. -/
def andThen (f : MethodFlow) (k : Frame → MethodFlow) : MethodFlow :=
  match f with
  | .normal frame => k frame
  | f => f

/-- How a method with this body ends; without a return it returns nothing. -/
def ending : MethodFlow → Ending
  | .normal frame => .returned (.host .none) frame.content
  | .returned v content => .returned v content
  | .raised e frame => .raised e frame.content
  | .stuck => .stuck
  | .unfinished => .unfinished

end MethodFlow

/-- The end of conversion code, the container as it was. -/
def Flow.within (content : Content) : Flow → MethodFlow
  | .normal env => .normal ⟨env, content⟩
  | .returned v => .returned v content
  | .raised e env => .raised e ⟨env, content⟩
  | .stuck => .stuck
  | .unfinished => .unfinished

/-- Goes on with the outcome of a condition. -/
def test (r : Receiver) (frame : Frame) (condition : Expr) (k : Bool → Frame → MethodFlow) :
    MethodFlow :=
  match condition with
  | .binary .isIn e (.name x) =>
    if x = "self" then
      .feed frame (eval frame.env e) fun v =>
        match r.member v frame.content with
        | .returned w content => .feed frame (given w.truth) fun b => k b { frame with content }
        | .raised e content => .raised e { frame with content }
        | .stuck => .stuck
        | .unfinished => .unfinished
    else .stuck
  | e => .feed frame (do given (← value r frame e).truth) fun b => k b frame

mutual

/-- Runs a statement of a method. -/
def run (r : Receiver) (rounds : Nat) : Stmt → Frame → MethodFlow
  | .assign target e, frame =>
    .feed frame (do assignIn r frame (← value r frame e) target) .normal
  | .expr e, frame => .feed frame (performIn r frame e) .normal
  | .branch arms otherwise, frame => runArms r rounds arms (runOption r rounds otherwise) frame
  | .ret (some e), frame => .feed frame (value r frame e) fun v => .returned v frame.content
  | .raise e, frame => .feed frame (exceptionOf frame.env e) fun x => .raised x frame
  | .attempt body exception handler, frame =>
    match runAll r rounds body frame with
    | .raised e frame' => if e = exception then runAll r rounds handler frame' else .raised e frame'
    | f => f
  | s, frame => (exec rounds s frame.env).within frame.content
termination_by structural s => s

/-- Runs statements in order. -/
def runAll (r : Receiver) (rounds : Nat) : List Stmt → Frame → MethodFlow
  | [], frame => .normal frame
  | s :: ss, frame => (run r rounds s frame).andThen (runAll r rounds ss)
termination_by structural ss => ss

/-- Runs the block of the first condition that holds. -/
def runArms (r : Receiver) (rounds : Nat) :
    List (Expr × List Stmt) → (Frame → MethodFlow) → Frame → MethodFlow
  | [], otherwise, frame => otherwise frame
  | (condition, body) :: arms, otherwise, frame =>
    test r frame condition fun b frame =>
      if b then runAll r rounds body frame else runArms r rounds arms otherwise frame
termination_by structural arms => arms

/-- Runs a block that may be absent. -/
def runOption (r : Receiver) (rounds : Nat) : Option (List Stmt) → Frame → MethodFlow
  | none, frame => .normal frame
  | some body, frame => runAll r rounds body frame
termination_by structural body => body

end

/-! ## Calls -/

/-- The environment in which the parameters after the receiver are bound. -/
def bindParams : List Param → List Val → Option Env
  | [], [] => some fun _ => none
  | p :: ps, v :: vs => (bindParams ps vs).map fun env => env.bind p.name v
  | _, _ => none

/-- Calls a method of a class on a container. -/
def invoke (c : ClassDef) (pointer : String) : Nat → String → List Val → Content → Ending
  | 0, _, _, _ => .unfinished
  | rounds + 1, name, args, content =>
    match c.methods.find? fun f => f.name == name with
    | some ⟨_, _, _ :: params, _, _, some body⟩ =>
      match bindParams params args with
      | some env =>
        let member v content := invoke c pointer rounds "__contains__" [v] content
        (runAll ⟨pointer, member⟩ rounds body ⟨env, content⟩).ending
      | none => .stuck
    | _ => .stuck

/-- A call of a method ends so, once its loops and the calls in it may go far enough. -/
def Answers (c : ClassDef) (pointer name : String) (args : List Val) (content : Content)
    (ending : Ending) : Prop :=
  ∃ least, ∀ rounds, least ≤ rounds → invoke c pointer rounds name args content = ending

theorem Answers.unique {c : ClassDef} {pointer name : String} {args : List Val}
    {content : Content} {e e' : Ending} (h : Answers c pointer name args content e)
    (h' : Answers c pointer name args content e') : e = e' := by
  obtain ⟨m, hm⟩ := h
  obtain ⟨n, hn⟩ := h'
  rw [← hm (max m n) (Nat.le_max_left m n), hn (max m n) (Nat.le_max_right m n)]

end WrapGen.Execution
