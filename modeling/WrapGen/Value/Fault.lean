import WrapGen.Descriptor.Error
import WrapGen.Value.Host
/-!
# Faults of wrapper operations

Why an operation on a wrapper fails. The end of an iteration is no fault.
-/
namespace WrapGen

/-- Why an operation fails. -/
inductive Fault where
  /-- A value of a kind that is not accepted, where kinds are checked first. -/
  | wrongKind (expected role found : String)
  /-- Lookup of a key that is not there. -/
  | absentKey (key : HostValue)
  /-- A value that storage of the target type has no form for. -/
  | inconvertible (found target : String)
  /-- An integer that does not fit its storage. -/
  | outOfRange (value : Int) (target : Primitive)
  /-- The storage of an alias that outlived all owners. -/
  | released
  /-- The type is at fault. -/
  | descriptor (e : DescriptorError)

/-- The wording of a fault. -/
def Fault.message : Fault → String
  | wrongKind expected role found =>
    "only " ++ expected ++ " " ++ role ++ " are valid, found `" ++ found ++ "`"
  | absentKey key => "key not found: " ++ key.text
  | inconvertible found target => "cannot convert `" ++ found ++ "` to " ++ target
  | outOfRange value target => toString value ++ " is out of range for " ++ target.token
  | released => "the wrapped storage was released by its owner"
  | descriptor e => e.message

/-- The fault of a type. -/
def Fault.ofDescriptor {α : Type} (x : Except DescriptorError α) : Except Fault α :=
  x.mapError .descriptor

end WrapGen
