import WrapGen.Value.Datum
/-!
# Ordered containers

Lists in the order of the keys of their items, each key once. A set is a list
whose items are their own keys, a map a list of entries. All operations take the
function that gives the key, and keep the order.
-/
namespace WrapGen.Ordered

variable {α : Type}

/-- Puts an item in its place; an item with the same key is replaced. -/
def insert (key : α → Datum) (x : α) : List α → List α
  | [] => [x]
  | y :: ys =>
    match (key x).compare (key y) with
    | .lt => x :: y :: ys
    | .eq => x :: ys
    | .gt => y :: insert key x ys

/-- The items of a list in order; of several with one key the last stays. -/
def ofList (key : α → Datum) (xs : List α) : List α :=
  xs.foldl (fun acc x => insert key x acc) []

/-- The item with the key `k`. -/
def find? (key : α → Datum) (k : Datum) (xs : List α) : Option α :=
  xs.find? fun x => k.compare (key x) == .eq

/-- Whether an item has the key `k`. -/
def contains (key : α → Datum) (k : Datum) (xs : List α) : Bool :=
  (find? key k xs).isSome

/-- The list without the item with the key `k`. -/
def erase (key : α → Datum) (k : Datum) (xs : List α) : List α :=
  xs.filter fun x => k.compare (key x) != .eq

/-- The first item, or the first whose key lies after `last`. -/
def firstAfter (key : α → Datum) (last : Option Datum) (xs : List α) : Option α :=
  match last with
  | none => xs.head?
  | some k => xs.find? fun x => k.compare (key x) == .lt

end WrapGen.Ordered
