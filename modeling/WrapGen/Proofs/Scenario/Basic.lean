import WrapGen.Catalog.Builtin
import WrapGen.Code.Item
import WrapGen.Wrapper.Store

/-!
# Running scenario tests

What a generated test does when it is run against the wrappers. The names of a
test are those of wrappers and iterators in a store, and its expressions and
statements are operations on the store: membership, lookup and length ask it,
construction, insertion, assignment and removal change it.

Assertions compare host values by `HostValue.same`, those up to a tolerance too.
A test passes if it runs to its end from the empty store: no operation raises
outside of `assert_raises`, every assertion holds, and every statement has a
meaning.
-/
namespace WrapGen.Scenario

open Code

/-- The class that a test makes wrappers of. -/
structure Subject where
  /-- The name of the class. -/
  publicClass : String
  type : WrappedType
  insertion : Insertion

/-- Why a test does not reach its end. -/
inductive Stop where
  /-- An operation raises an error or signals the end of an iteration. -/
  | raised (a : Answer)
  /-- An assertion does not hold. -/
  | failed
  /-- A statement has no meaning here. -/
  | stuck

/-! ## Written values -/

mutual

/-- The value of an expression that is a literal or a display of such. -/
def written? : Expr → Option HostValue
  | .literal l => some (.ofLiteral l)
  | .list items => (writtenAll? items).map .list
  | .dict pairs => (writtenPairs? pairs).map .dict
  | _ => none
termination_by structural e => e

/-- The values of written expressions. -/
def writtenAll? : List Expr → Option (List HostValue)
  | [] => some []
  | e :: es => do return (← written? e) :: (← writtenAll? es)
termination_by structural es => es

/-- The entries of written pairs. -/
def writtenPairs? : List (Expr × Expr) → Option (List (HostValue × HostValue))
  | [] => some []
  | (k, v) :: ps => do return (← written? k, ← written? v) :: (← writtenPairs? ps)
termination_by structural ps => ps

end

/-! ## Operations -/

/-- The operation that a method of a wrapper is. -/
def method? (id : String) : String → List HostValue → Option Operation
  | "add", [v] => some (.add id v)
  | "discard", [v] => some (.discard id v)
  | "__getitem__", [k] => some (.get id k)
  | _, _ => none

/-- The operation that an expression asks for. -/
def operation? : Expr → Option Operation
  | .call (.attr (.name id) method) args => (writtenAll? args).bind (method? id method)
  | .call (.name "len") [.name id] => some (.size id)
  | .call (.name "next") [.name iterator] => some (.next iterator)
  | .index (.name id) k => (written? k).map (.get id)
  | _ => none

/-- What the arguments of a construction say that the wrapper starts from. -/
def origin? : List Expr → Option Origin
  | [] => some .empty
  | [.name source] => some (.alias source none)
  | [.name source, .literal (.bool owns)] => some (.alias source (some owns))
  | [e] => (written? e).map .host
  | _ => none

/-- Whether an answer is the error of a name in the host language. -/
def isError (error : String) : Answer → Bool
  | .refused (.fault (.wrongKind _ _ _)) => error == "TypeError"
  | .refused (.fault (.absentKey _)) => error == "KeyError"
  | .exhausted => error == "StopIteration"
  | _ => false

/-- Runs an operation for its effect. -/
def perform (s : Store) (op : Operation) : Except Stop Store :=
  match s.step .builtin op with
  | (_, .refused r) => .error (.raised (.refused r))
  | (_, .exhausted) => .error (.raised .exhausted)
  | (s, _) => .ok s

/-- Runs an operation for its value. -/
def ask (s : Store) (op : Operation) : Except Stop (Store × HostValue) :=
  match s.step .builtin op with
  | (s, .count n) => .ok (s, .int n)
  | (s, .value v) => .ok (s, v)
  | (_, a) => .error (.raised a)

/-! ## Expressions -/

/-- What an iterator yields until it ends, if that takes fewer than `rounds` steps. -/
def drain (iterator : String) : Nat → Store → Except Stop (Store × List HostValue)
  | 0, _ => .error .stuck
  | rounds + 1, s =>
    match s.step .builtin (.next iterator) with
    | (s, .value v) => do
      let (s, vs) ← drain iterator rounds s
      return (s, v :: vs)
    | (s, .exhausted) => .ok (s, [])
    | (_, a) => .error (.raised a)

/-- More steps than an iterator takes to end. -/
def rounds (s : Store) (iterator : String) : Nat :=
  match s.cursors.lookup iterator with
  | some cursor => (s.contentAt cursor.storage).size + 1
  | none => 0

/-- The value of an expression. -/
def eval (s : Store) : Expr → Except Stop (Store × HostValue)
  | .call (.name "len") [.call (.name "list") [.name iterator]] => do
    let (s, vs) ← drain iterator (rounds s iterator) s
    return (s, .int vs.length)
  | e =>
    match written? e, operation? e with
    | some v, _ => .ok (s, v)
    | none, some op => ask s op
    | none, none => .error .stuck

/-- Whether a value is a member of a wrapper. -/
def member (s : Store) (k : Expr) (id : String) : Except Stop (Store × Bool) :=
  match written? k with
  | some k =>
    match s.step .builtin (.contains id k) with
    | (s, .flag b) => .ok (s, b)
    | (_, a) => .error (.raised a)
  | none => .error .stuck

/-- Whether a condition holds. -/
def test (s : Store) : Expr → Except Stop (Store × Bool)
  | .binary .isIn k (.name id) => member s k id
  | .binary .notIn k (.name id) => do
    let (s, b) ← member s k id
    return (s, !b)
  | _ => .error .stuck

/-! ## Statements -/

/-- Goes on if a condition holds. -/
def require (holds : Bool) (s : Store) : Except Stop Store :=
  if holds then .ok s else .error .failed

/-- Runs an assertion. -/
def assertion (s : Store) : String → List Expr → Except Stop Store
  | "assert_true", [e] => do
    let (s, b) ← test s e
    require b s
  | "assert_false", [e] => do
    let (s, b) ← test s e
    require (!b) s
  | "assert_equal", [a, b] | "assert_almost_equal", [a, b]
  | "assert_array_almost_equal", [a, b] => do
    let (s, v) ← eval s a
    let (s, w) ← eval s b
    require (v.same w) s
  | "assert_raises", .name error :: callee :: args =>
    match operation? (.call callee args) with
    | some op =>
      let (s, a) := s.step .builtin op
      require (isError error a) s
    | none => .error .stuck
  | _, _ => .error .stuck

/-- Runs a statement. -/
def exec (c : Subject) (s : Store) : Stmt → Except Stop Store
  | .assign (.name id) (.call (.attr (.name "conv") publicClass) args) =>
    match origin? args with
    | some origin =>
      if publicClass = c.publicClass then perform s (.create id c.type c.insertion origin)
      else .error .stuck
    | none => .error .stuck
  | .assign (.name iterator) (.call (.name "iter") [.name id]) => perform s (.iterate id iterator)
  | .assign (.index (.name id) k) v =>
    match written? k, written? v with
    | some k, some v => perform s (.put id k v)
    | _, _ => .error .stuck
  | .delete (.index (.name id) k) =>
    match written? k with
    | some k => perform s (.delete id k)
    | none => .error .stuck
  | .expr (.call (.name function) args) => assertion s function args
  | .expr e =>
    match operation? e with
    | some op => perform s op
    | none => .error .stuck
  | .comment _ | .blank => .ok s
  | _ => .error .stuck

/-- Runs statements one after the other. -/
def run (c : Subject) (s : Store) (body : List Stmt) : Except Stop Store :=
  body.foldlM (exec c) s

/-- A test runs to its end. -/
def Passes (c : Subject) (f : Function) : Prop :=
  ∃ body s, f.body = some body ∧ run c .empty body = .ok s

end WrapGen.Scenario
