/-!
# Type descriptors

A descriptor is a type as a request writes it: a bare token such as
`unsigned int`, or a head applied to arguments such as `map<str, vector<double>>`.
Descriptors are names only; a catalog gives them a meaning.
-/
namespace WrapGen

/-- A type as written in a request. -/
inductive Descriptor where
  | token (text : String)
  | applied (head : String) (args : List Descriptor)

namespace Descriptor

/-- Deepest nesting of applications that is accepted. -/
def maxNesting : Nat := 64

/-! ## Text -/

mutual

/-- The text of a descriptor; arguments are separated by a comma and a space. -/
def text : Descriptor → String
  | .token t => t
  | .applied head args => head ++ "<" ++ ", ".intercalate (texts args) ++ ">"
termination_by structural d => d

/-- The texts of the descriptors of a list. -/
def texts : List Descriptor → List String
  | [] => []
  | d :: ds => d.text :: texts ds
termination_by structural ds => ds

end

instance : ToString Descriptor := ⟨text⟩

/-! ## Equality -/

mutual

/-- Equality of descriptors is decided part by part. -/
def decEq : (a b : Descriptor) → Decidable (a = b)
  | .token s, .token t =>
    if h : s = t then isTrue (h ▸ rfl) else isFalse fun e => h (Descriptor.token.inj e)
  | .applied h xs, .applied k ys =>
    if hk : h = k then
      match decEqList xs ys with
      | isTrue e => isTrue (hk ▸ e ▸ rfl)
      | isFalse n => isFalse fun e => n (Descriptor.applied.inj e).2
    else isFalse fun e => hk (Descriptor.applied.inj e).1
  | .token _, .applied _ _ => isFalse nofun
  | .applied _ _, .token _ => isFalse nofun
termination_by structural a => a

/-- Equality of lists of descriptors. -/
def decEqList : (xs ys : List Descriptor) → Decidable (xs = ys)
  | [], [] => isTrue rfl
  | x :: xs, y :: ys =>
    match decEq x y with
    | isFalse n => isFalse fun e => n (List.cons.inj e).1
    | isTrue h =>
      match decEqList xs ys with
      | isTrue e => isTrue (h ▸ e ▸ rfl)
      | isFalse n => isFalse fun e => n (List.cons.inj e).2
  | [], _ :: _ => isFalse nofun
  | _ :: _, [] => isFalse nofun
termination_by structural xs => xs

end

instance : DecidableEq Descriptor := decEq

end Descriptor

end WrapGen
