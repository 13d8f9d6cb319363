import WrapGen.Json.Basic
/-!
# Reading records

A record is read from an object, by the names of its fields, or from an array, by
their order. Fields that are missing keep the values of a default record. An
object may name every field once and nothing else; an array may not be longer
than the list of fields.
-/
namespace WrapGen.Json

/-- A field of a record: its name, and how a value is put there. -/
structure FieldReader (α : Type) where
  name : String
  set : Json → α → Option α

/-- Puts the value of a member into the field of its name. -/
def setMember {α : Type} (fields : List (FieldReader α)) (record : α) (member : String × Json) :
    Option α := do
  let field ← fields.find? fun f => f.name == member.1
  field.set member.2 record

/-- Reads a record over a default record. -/
def readRecord {α : Type} (fields : List (FieldReader α)) (default : α) : Json → Option α
  | .object members =>
    if (members.map Prod.fst).Nodup then members.foldlM (setMember fields) default else none
  | .array items =>
    if items.length ≤ fields.length then
      (fields.zip items).foldlM (fun record pair => pair.1.set pair.2 record) default
    else none
  | _ => none

/-- The string that a value is. -/
def string? : Json → Option String
  | .string s => some s
  | _ => none

/-- The string that a value is, where `null` stands for none. -/
def stringOrNull? : Json → Option (Option String)
  | .null => some none
  | .string s => some (some s)
  | _ => none

/-- The list that a value is, its items read one by one. -/
def list? {α : Type} (item : Json → Option α) : Json → Option (List α)
  | .array items => items.mapM item
  | _ => none

/-- A string, or `null` for none. -/
def ofOption : Option String → Json
  | none => .null
  | some s => .string s

end WrapGen.Json
