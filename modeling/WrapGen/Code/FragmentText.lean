import WrapGen.Text.Lines
import WrapGen.Code.ExprText
import WrapGen.Code.Item
/-!
# The text of fragments

Statements, functions, classes and fragments become lines. The body of a
function or block stands one level deeper than the line that opens it, and an
empty one is `pass`. Items at the top level are a blank line apart, except after
a comment and between two declarations; so are methods with bodies from what
stands before them in their class.
-/
namespace WrapGen.Code

open Text (Line)

/-- A line of content. -/
def line (level : Nat) (text : String) : List Line := [.content level text]

/-! ## Statements -/

/-- The block that does nothing. -/
def passLines (level : Nat) : List Line := line level "pass"

namespace Stmt

mutual

/-- The lines of a statement. -/
def lines (level : Nat) : Stmt → List Line
  | .decl t e => line level ("cdef " ++ t ++ " " ++ e.text)
  | .assign t v => line level (t.text ++ " = " ++ v.text)
  | .expr e => line level e.text
  | .branch arms otherwise => armLines level "if " arms ++ elseLines level otherwise
  | .forEach ts e body =>
    line level ("for " ++ ", ".intercalate ts ++ " in " ++ e.text ++ ":") ++
      blockLines (level + 1) body
  | .loop c body => line level ("while " ++ c.text ++ ":") ++ blockLines (level + 1) body
  | .ret none => line level "return"
  | .ret (some v) => line level ("return " ++ v.text)
  | .raise e => line level ("raise " ++ e.text)
  | .attempt body x handler =>
    line level "try:" ++ blockLines (level + 1) body ++
      line level ("except " ++ x ++ ":") ++ blockLines (level + 1) handler
  | .delete e => line level ("del " ++ e.text)
  | .comment t => line level ("# " ++ t)
  | .blank => [.blank]
termination_by structural s => s

/-- The lines of a block. -/
def blockLines (level : Nat) : List Stmt → List Line
  | [] => passLines level
  | s :: ss => s.lines level ++ restLines level ss
termination_by structural ss => ss

/-- The lines of the further statements of a block. -/
def restLines (level : Nat) : List Stmt → List Line
  | [] => []
  | s :: ss => s.lines level ++ restLines level ss
termination_by structural ss => ss

/-- The lines of conditions and their blocks; the first one opens with `keyword`. -/
def armLines (level : Nat) (keyword : String) : List (Expr × List Stmt) → List Line
  | [] => []
  | (c, body) :: arms =>
    line level (keyword ++ c.text ++ ":") ++ blockLines (level + 1) body ++
      armLines level "elif " arms
termination_by structural arms => arms

/-- The lines of the block for no condition. -/
def elseLines (level : Nat) : Option (List Stmt) → List Line
  | none => []
  | some body => line level "else:" ++ blockLines (level + 1) body
termination_by structural body => body

end

end Stmt

/-! ## Functions and classes -/

/-- The three double quotes around a doc text. -/
def docMark : String := "\"\"\""

/-- The lines of a doc text. -/
def docLines (level : Nat) (doc : String) : List Line :=
  let further (cs : List Char) : Line :=
    if cs.isEmpty then .blank else .content level (String.ofList cs)
  match Text.splitLines doc.toList with
  | [] => line level docMark ++ line level docMark
  | first :: rest =>
    line level (docMark ++ String.ofList first) ++ rest.map further ++ line level docMark

/-- The text of a parameter. -/
def Param.text (p : Param) : String :=
  let declared := match p.type with
    | some t => if p.name.isEmpty then t else t ++ " " ++ p.name
    | none => p.name
  match p.default with
  | some e => declared ++ "=" ++ e.text
  | none => declared

namespace Function

/-- The signature of a function. -/
def headText (f : Function) : String :=
  let keyword := match f.kind, f.returns with
    | .host, _ => "def "
    | .storage, some t => "cdef " ++ t ++ " "
    | .storage, none => "cdef "
  keyword ++ f.name ++ "(" ++ ", ".intercalate (f.params.map Param.text) ++ ")"

/-- The lines of the body of a function; a doc text alone is a body. -/
def bodyLines (level : Nat) (doc : Option String) (body : List Stmt) : List Line :=
  match doc, body with
  | none, body => Stmt.blockLines level body
  | some d, [] => docLines level d
  | some d, body => docLines level d ++ Stmt.blockLines level body

/-- The lines of a function. -/
def lines (level : Nat) (f : Function) : List Line :=
  match f.body with
  | none => line level f.headText
  | some body => line level (f.headText ++ ":") ++ bodyLines (level + 1) f.doc body

end Function

/-- The text of a field. -/
def Field.text (f : Field) : String :=
  "cdef " ++ (if f.isPublic then "public " else "") ++ f.type ++ " " ++ f.name

namespace ClassDef

/-- The line that opens a class. -/
def headText (c : ClassDef) : String :=
  let keyword := match c.kind with
    | .extension => "cdef class "
    | .host => "class "
  let bases := if c.bases.isEmpty then "" else "(" ++ ", ".intercalate c.bases ++ ")"
  keyword ++ c.name ++ bases ++ ":"

/-- The lines of methods; `first` says that nothing stands before them. -/
def methodLines (level : Nat) : Bool → List Function → List Line
  | _, [] => []
  | first, m :: ms =>
    (if !first && !m.isDeclaration then [.blank] else []) ++ m.lines level ++
      methodLines level false ms

/-- The lines inside a class. -/
def bodyLines (level : Nat) (c : ClassDef) : List Line :=
  let doc := match c.doc with
    | some d => docLines level d
    | none => []
  let fields := c.fields.flatMap fun f => line level f.text
  match doc ++ fields ++ methodLines level (c.doc.isNone && c.fields.isEmpty) c.methods with
  | [] => passLines level
  | lines => lines

/-- The lines of a class. -/
def lines (level : Nat) (c : ClassDef) : List Line :=
  line level c.headText ++ c.bodyLines (level + 1)

end ClassDef

/-! ## Fragments -/

namespace Item

/-- The lines of an item. -/
def lines : Item → List Line
  | comment t => line 0 ("# " ++ t)
  | classDef c => c.lines 0
  | function f => f.lines 0

/-- Whether a blank line stands between two items. -/
def needsGap : Item → Item → Bool
  | comment _, _ => false
  | function f, function g => !(f.isDeclaration && g.isDeclaration)
  | _, _ => true

end Item

namespace Fragment

/-- The lines of the items that follow the item `before`. -/
def linesAfter (before : Item) : List Item → List Line
  | [] => []
  | item :: items =>
    (if before.needsGap item then [.blank] else []) ++ item.lines ++ linesAfter item items

/-- The lines of a fragment. -/
def lines : Fragment → List Line
  | [] => []
  | item :: items => item.lines ++ linesAfter item items

/-- The text of a fragment. -/
def text (f : Fragment) : String := Line.textAll (lines f)

end Fragment

end WrapGen.Code
