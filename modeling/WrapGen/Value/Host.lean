import WrapGen.Code.LiteralText
import WrapGen.Element.Primitive
/-!
# Host values

The values of the host language, as wrappers see them. Sets and dicts keep the
order and the duplicates they are given with. `text` shows a value in the syntax
of the host language.

`same` is the equality of the host language. It looks at numbers by their value
and at sets and dicts by their members: a collection equals another with as many
members if each of its own members has an equal one there. A member of the other
collection is asked from its own side, which matters only where collections with
duplicates are nested, so `agrees` carries the side along.
-/
namespace WrapGen

open Binary Code

/-- A value of the host language. -/
inductive HostValue where
  | none
  | int (n : Int)
  | float (x : Double)
  | complex (re im : Double)
  | str (s : String)
  | list (items : List HostValue)
  | tuple (items : List HostValue)
  | set (items : List HostValue)
  | dict (entries : List (HostValue × HostValue))

namespace HostValue

/-- The kind of a value; the value `none` has no kind of its own. -/
def kind? : HostValue → Option HostKind
  | .none => .none
  | .int _ => some .int
  | .float _ => some .float
  | .complex _ _ => some .complex
  | .str _ => some .str
  | .list _ => some .list
  | .tuple _ => some .tuple
  | .set _ => some .set
  | .dict _ => some .dict

/-- The name of the type of a value in the host language. -/
def typeName (v : HostValue) : String :=
  match v.kind? with
  | some k => k.name
  | .none => "NoneType"

/-! ## From literals -/

mutual

/-- The value of a literal; truth values are integers. -/
def ofLiteral : Literal → HostValue
  | .none => .none
  | .bool b => .int (if b then 1 else 0)
  | .int n => .int n
  | .float x => .float x
  | .complex re im => .complex re im
  | .str s => .str s
  | .list items => .list (ofLiterals items)
  | .set items => .set (ofLiterals items)
  | .dict pairs => .dict (ofPairs pairs)
termination_by structural l => l

/-- The values of the literals of a list. -/
def ofLiterals : List Literal → List HostValue
  | [] => []
  | l :: ls => ofLiteral l :: ofLiterals ls
termination_by structural ls => ls

/-- The entries of pairs of literals. -/
def ofPairs : List (Literal × Literal) → List (HostValue × HostValue)
  | [] => []
  | (k, v) :: ps => (ofLiteral k, ofLiteral v) :: ofPairs ps
termination_by structural ps => ps

end

/-! ## Text -/

/-- A complex number, both of its parts shown. -/
def complexText (re im : Double) : String :=
  let part := Decimal.Layout.standard.text (f := Format.binary64)
  "(" ++ part re ++ (if im.isNegative then "-" else "+") ++ part im.abs ++ "j)"

mutual

/-- A value in the syntax of the host language. -/
def text : HostValue → String
  | .none => "None"
  | .int n => toString n
  | .float x => Decimal.Layout.standard.text x
  | .complex re im => complexText re im
  | .str s => Text.quoteForDisplay s
  | .list items => bracketed (texts items)
  | .tuple [item] => "(" ++ item.text ++ ",)"
  | .tuple items => "(" ++ ", ".intercalate (texts items) ++ ")"
  | .set [] => "set()"
  | .set items => braced (texts items)
  | .dict entries => braced (entryTexts entries)
termination_by structural v => v

/-- The texts of the values of a list. -/
def texts : List HostValue → List String
  | [] => []
  | v :: vs => v.text :: texts vs
termination_by structural vs => vs

/-- The texts of the entries of a dict. -/
def entryTexts : List (HostValue × HostValue) → List String
  | [] => []
  | (k, v) :: es => (k.text ++ ": " ++ v.text) :: entryTexts es
termination_by structural es => es

end

/-! ## Equality -/

mutual

/-- Whether two values are equal, asked from the side of the first or, when
`fromSecond` holds, of the second. -/
def agrees (fromSecond : Bool) : HostValue → HostValue → Bool
  | .none, .none => true
  | .int m, .int n => m == n
  | .float x, .float y => x.same y
  | .int n, .float x => (Word.ofInt n).same x
  | .float x, .int n => (Word.ofInt n).same x
  | .complex a b, .complex c d => a.same c && b.same d
  | .str s, .str t => s == t
  | .list xs, .list ys => agreeAll fromSecond xs ys
  | .tuple xs, .tuple ys => agreeAll fromSecond xs ys
  | .set xs, .set ys =>
    xs.length == ys.length &&
      (if fromSecond then ys.all fun y => hasMember xs y else eachIsMember xs ys)
  | .dict ps, .dict qs =>
    ps.length == qs.length &&
      (if fromSecond then qs.all fun q => hasEntry ps q else eachIsEntry ps qs)
  | _, _ => false
termination_by structural v => v

/-- Values compared one by one. -/
def agreeAll (fromSecond : Bool) : List HostValue → List HostValue → Bool
  | [], [] => true
  | x :: xs, y :: ys => agrees fromSecond x y && agreeAll fromSecond xs ys
  | _, _ => false
termination_by structural xs => xs

/-- Whether a value of the list equals `y`, asked from its own side. -/
def hasMember : List HostValue → HostValue → Bool
  | [], _ => false
  | x :: xs, y => agrees false x y || hasMember xs y
termination_by structural xs => xs

/-- Whether every value of the first list has an equal one in the second, asked
from the side of the second. -/
def eachIsMember : List HostValue → List HostValue → Bool
  | [], _ => true
  | x :: xs, ys => ys.any (fun y => agrees true x y) && eachIsMember xs ys
termination_by structural xs => xs

/-- Whether an entry of the list equals `q`, asked from the side of `q`. -/
def hasEntry : List (HostValue × HostValue) → HostValue × HostValue → Bool
  | [], _ => false
  | (k, v) :: ps, q => (agrees true k q.1 && agrees true v q.2) || hasEntry ps q
termination_by structural ps => ps

/-- Whether every entry of the first list has an equal one in the second, asked
from its own side. -/
def eachIsEntry : List (HostValue × HostValue) → List (HostValue × HostValue) → Bool
  | [], _ => true
  | (k, v) :: ps, qs =>
    qs.any (fun q => agrees false k q.1 && agrees false v q.2) && eachIsEntry ps qs
termination_by structural ps => ps

end

/-- Equality of the host language. -/
def same (a b : HostValue) : Bool := agrees false a b

end HostValue

end WrapGen
