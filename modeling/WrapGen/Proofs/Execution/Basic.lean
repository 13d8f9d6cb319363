import WrapGen.Catalog.Builtin
import WrapGen.Value.Conversion
import WrapGen.Proofs.Execution.Merged

/-!
# Running conversion code

A meaning for the code that conversions are made of. Names are bound to values
(`Env`): host values, storage values, positions in storage containers, and what
a text and a complex number pass through on their way. Containers are values:
a method that changes one binds its name to the changed container.

`eval` gives the value of an expression, `exec` and `execAll` run statements.
Running is total: `while` loops are cut off after a number of rounds, and
`Flow.unfinished` says that this happened, apart from an exception and from
code without a meaning (`stuck`). Functions and types of the target are no
bindings of the environment: a call of `set` or of a storage type makes an
empty container whatever is bound.

Storage and host containers keep their own rules: `Ordered.insert` on sets and
maps in storage, `HostValue.place` on host sets and dicts.
-/
namespace WrapGen.Execution

open Code Binary

/-- A value of running code. -/
inductive Val where
  | host (v : HostValue)
  | datum (d : Datum)
  /-- What a position in a map refers to. -/
  | entry (key value : Datum)
  /-- The place `index` in a container. -/
  | position (container : Datum) (index : Nat)
  /-- The bytes of a text. -/
  | bytes (s : String)
  /-- A complex number in storage without one or both of its fields. -/
  | fields (re im : Option Double)

/-- What names are bound to. -/
abbrev Env := String → Option Val

/-- The environment with `x` bound to `v`. -/
def Env.bind (env : Env) (x : String) (v : Val) : Env := fun y => if y = x then some v else env y

/-- Why an expression has no value. -/
inductive Halt where
  | raised (exception : String)
  /-- Code without a meaning. -/
  | stuck
  deriving DecidableEq, Repr

/-- How a run ends. -/
inductive Flow where
  | normal (env : Env)
  | returned (v : Val)
  | raised (exception : String) (env : Env)
  | stuck
  /-- A loop had more rounds to go. -/
  | unfinished

/-- The value, or code without a meaning. -/
def given {α : Type} : Option α → Except Halt α
  | some a => .ok a
  | none => .error .stuck

/-! ## Storage values -/

/-- The number of items of a container. -/
def itemCount? : Datum → Option Nat
  | .vector items | .set items => some items.length
  | .map entries => some entries.length
  | _ => none

/-- The item at a place of a container. -/
def itemAt? : Datum → Nat → Option Val
  | .vector items, i | .set items, i => items[i]?.map .datum
  | .map entries, i => entries[i]?.map fun e => .entry e.1 e.2
  | _, _ => none

/-- The empty container of a storage type. -/
def emptyContainer? (type : String) : Option Datum :=
  if "cpp_vector[".toList.isPrefixOf type.toList then some (.vector [])
  else if "cpp_set[".toList.isPrefixOf type.toList then some (.set [])
  else if "cpp_map[".toList.isPrefixOf type.toList then some (.map [])
  else none

/-- The primitive that a storage type holds. -/
def storedAs? (type : String) : Option Primitive :=
  (Catalog.builtin.primitives.find? fun row => row.2.storageType == type).map Prod.fst

/-! ## Operations on values -/

namespace Val

/-- A number as a field of a complex number takes it. -/
def toDouble? : Val → Option Double
  | .host (.float x) => some x
  | .host (.int n) => some (Word.ofInt n)
  | _ => none

/-- The host value, if it is one. -/
def toHost? : Val → Option HostValue
  | .host v => some v
  | _ => none

/-- A field of a value. -/
def field : Val → String → Option Val
  | .host (.complex re _), "real" => some (.host (.float re))
  | .host (.complex _ im), "imag" => some (.host (.float im))
  | .host (.float x), "real" => some (.host (.float x))
  | .host (.float _), "imag" => some (.host (.float Word.zero))
  | .host (.int n), "real" => some (.host (.int n))
  | .host (.int _), "imag" => some (.host (.int 0))
  | .datum (.complex re _), "re" => some (.datum (.float64 re))
  | .datum (.complex _ im), "im" => some (.datum (.float64 im))
  | .entry k _, "first" => some (.datum k)
  | .entry _ v, "second" => some (.datum v)
  | _, _ => none

/-- What a position refers to. -/
def deref : Val → Option Val
  | .position container i => itemAt? container i
  | _ => none

/-- The position after a position. -/
def next : Val → Option Val
  | .position container i => some (.position container (i + 1))
  | _ => none

/-- A method that changes nothing. -/
def method : Val → String → List Val → Option Val
  | .host (.str s), "encode", [] => some (.bytes s)
  | .bytes s, "decode", [] => some (.host (.str s))
  | .datum (.str s), "c_str", [] => some (.bytes s)
  | .host (.dict entries), "items", [] =>
    some (.host (.list (entries.map fun e => .tuple [e.1, e.2])))
  | .datum d, "begin", [] => (itemCount? d).map fun _ => .position d 0
  | .datum d, "end", [] => (itemCount? d).map fun n => .position d n
  | _, _, _ => none

/-- A method that changes its receiver. -/
def change : Val → String → Val → Option Val
  | .datum (.vector items), "push_back", .datum d => some (.datum (.vector (items ++ [d])))
  | .datum (.set items), "insert", .datum d => some (.datum (.set (Ordered.insert id d items)))
  | .host (.list items), "append", .host v => some (.host (.list (items ++ [v])))
  | .host (.set items), "add", .host v =>
    some (.host (.set (HostValue.place id HostValue.keepFirst v items)))
  | _, _, _ => none

/-- A container with a value assigned under a key. -/
def put : Val → Val → Val → Option Val
  | .datum (.map entries), .datum k, .datum v =>
    some (.datum (.map (Ordered.insert Prod.fst (k, v) entries)))
  | .host (.dict entries), .host k, .host v =>
    some (.host (.dict (HostValue.place Prod.fst HostValue.keepKey (k, v) entries)))
  | _, _, _ => none

/-- Whether two positions in one container differ. -/
def differs : Val → Val → Option Bool
  | .position _ i, .position _ j => some (i != j)
  | _, _ => none

/-- The fields of a complex number that are set. -/
def fieldsOf : Option Val → Option Double × Option Double
  | some (.fields re im) => (re, im)
  | some (.datum (.complex re im)) => (some re, some im)
  | _ => (none, none)

/-- The complex number with some fields set; one with both is a storage value. -/
def ofFields : Option Double → Option Double → Val
  | some re, some im => .datum (.complex re im)
  | re, im => .fields re im

/-- The complex number `old` with one more field set. -/
def setField (old : Option Val) (name : String) (v : Val) : Option Val :=
  match name, v.toDouble? with
  | "re", some x => some (ofFields (some x) (fieldsOf old).2)
  | "im", some x => some (ofFields (fieldsOf old).1 (some x))
  | _, _ => none

/-- The values that a loop runs over. -/
def items : Val → Option (List Val)
  | .host (.list vs) | .host (.tuple vs) | .host (.set vs) => some (vs.map .host)
  | _ => none

/-- A host value cast to a storage type, or bytes to their address. -/
def castTo (type : String) : Val → Except Halt Val
  | .bytes s => if type = "char *" then .ok (.bytes s) else .error .stuck
  | .host v => do
    let p ← given (storedAs? type)
    match p.toDatum v with
    | .ok d => .ok (.datum d)
    | .error (.outOfRange _ _) => .error (.raised "OverflowError")
    | .error _ => .error (.raised "TypeError")
  | _ => .error .stuck

end Val

/-- A function of the host, or the constructor of a container. -/
def callFunction : String → List Val → Option Val
  | "int", [.datum (.integer _ n)] => some (.host (.int n.val))
  | "float", [.datum (.float32 x)] => some (.host (.float (Single.widen x)))
  | "float", [.datum (.float64 x)] => some (.host (.float x))
  | "complex", [.host (.float re), .host (.float im)] => some (.host (.complex re im))
  | "bytes", [.bytes s] => some (.bytes s)
  | "set", [] => some (.host (.set []))
  | type, [] => (emptyContainer? type).map .datum
  | _, _ => none

/-- A storage value made from parts. -/
def construct : String → List Val → Option Val
  | "std_string", [.bytes s] => some (.datum (.str s))
  | _, _ => none

/-! ## Expressions -/

mutual

/-- The value of an expression. -/
def eval (env : Env) : Expr → Except Halt Val
  | .name x => given (env x)
  | .literal l => .ok (.host (.ofLiteral l))
  | .attr e name => do
    let v ← eval env e
    given (v.field name)
  | .call (.attr e name) args => do
    let v ← eval env e
    let vs ← evalAll env args
    given (v.method name vs)
  | .call (.name function) args => do
    let vs ← evalAll env args
    given (callFunction function vs)
  | .cast type e => do
    let v ← eval env e
    v.castTo type
  | .deref e => do
    let v ← eval env e
    given v.deref
  | .construct type args => do
    let vs ← evalAll env args
    given (construct type vs)
  | .list items => do
    let vs ← evalAll env items
    let hs ← given (vs.mapM Val.toHost?)
    return .host (.list hs)
  | .dict [] => .ok (.host (.dict []))
  | _ => .error .stuck
termination_by structural e => e

/-- The values of expressions, from left to right. -/
def evalAll (env : Env) : List Expr → Except Halt (List Val)
  | [] => .ok []
  | e :: es => do
    let v ← eval env e
    let vs ← evalAll env es
    return v :: vs
termination_by structural es => es

end

/-- Whether a condition holds: two positions differ. -/
def holds (env : Env) : Expr → Except Halt Bool
  | .binary .notEq a b => do
    let v ← eval env a
    let w ← eval env b
    given (v.differs w)
  | _ => .error .stuck

/-! ## Statements -/

/-- The environment after an assignment: to a name, to a field of a complex
number, or under a key of a container. -/
def assign (env : Env) (v : Val) : Expr → Except Halt Env
  | .name x => .ok (env.bind x v)
  | .attr (.name x) name => do
    let new ← given (Val.setField (env x) name v)
    return env.bind x new
  | .index (.name x) i => do
    let k ← eval env i
    let old ← given (env x)
    let new ← given (old.put k v)
    return env.bind x new
  | _ => .error .stuck

/-- The environment after an expression that stands as a statement: a position
is moved on, or a method changes its receiver. -/
def perform (env : Env) : Expr → Except Halt Env
  | .inc (.name x) => do
    let old ← given (env x)
    let new ← given old.next
    return env.bind x new
  | .call (.attr (.name x) name) [arg] => do
    let v ← eval env arg
    let old ← given (env x)
    let new ← given (old.change name v)
    return env.bind x new
  | _ => .error .stuck

/-- The environment in which the targets of a loop are bound to an item. -/
def bindTargets : List String → Val → Env → Option Env
  | [x], v, env => some (env.bind x v)
  | [x, y], .host (.tuple [a, b]), env => some ((env.bind x (.host a)).bind y (.host b))
  | _, _, _ => none

namespace Flow

/-- Goes on with a value, or ends as its computation does. -/
def feed {α : Type} (env : Env) (x : Except Halt α) (k : α → Flow) : Flow :=
  match x with
  | .ok a => k a
  | .error (.raised e) => .raised e env
  | .error .stuck => .stuck

/-- Goes on in the environment of a run that ended normally. -/
def andThen (f : Flow) (k : Env → Flow) : Flow :=
  match f with
  | .normal env => k env
  | f => f

end Flow

/-- Runs the body once for every item. -/
def forLoop (targets : List String) (body : Env → Flow) : List Val → Env → Flow
  | [], env => .normal env
  | v :: vs, env =>
    match bindTargets targets v env with
    | some env => (body env).andThen (forLoop targets body vs)
    | none => .stuck

/-- Runs the body as long as the test holds, for less than `rounds` rounds. -/
def whileLoop (test : Env → Except Halt Bool) (body : Env → Flow) : Nat → Env → Flow
  | 0, _ => .unfinished
  | rounds + 1, env => .feed env (test env) fun b =>
    if b then (body env).andThen (whileLoop test body rounds) else .normal env

mutual

/-- Runs a statement. Declarations have no effect. -/
def exec (rounds : Nat) : Stmt → Env → Flow
  | .decl _ _, env => .normal env
  | .assign target value, env =>
    .feed env (do assign env (← eval env value) target) .normal
  | .expr e, env => .feed env (perform env e) .normal
  | .forEach targets source body, env =>
    .feed env (do given (← eval env source).items) fun vs =>
      forLoop targets (execAll rounds body) vs env
  | .loop condition body, env =>
    whileLoop (fun env => holds env condition) (execAll rounds body) rounds env
  | .ret (some e), env => .feed env (eval env e) .returned
  | .ret none, _ => .returned (.host .none)
  | .attempt body exception handler, env =>
    match execAll rounds body env with
    | .raised e env' => if e = exception then execAll rounds handler env' else .raised e env'
    | f => f
  | .comment _, env => .normal env
  | .blank, env => .normal env
  | _, _ => .stuck
termination_by structural s => s

/-- Runs statements in order. -/
def execAll (rounds : Nat) : List Stmt → Env → Flow
  | [], env => .normal env
  | s :: ss, env => (exec rounds s env).andThen (execAll rounds ss)
termination_by structural ss => ss

end

end WrapGen.Execution
