import WrapGen.Json.Reader
import WrapGen.Json.Record
import WrapGen.Manifest.Basic
/-!
# The text of manifests

A manifest is written as JSON. Every field may be missing and is then that of the
empty manifest; `null` stands for a missing name or path and for nothing else.
The directory is not part of the text.
-/
namespace WrapGen

open Json (FieldReader)

/-- The word for an insertion mode. -/
def Insertion.word : Insertion → String
  | permissive => "permissive"
  | strict => "strict"

/-- The insertion mode of a word. -/
def Insertion.ofWord? (word : String) : Option Insertion :=
  [permissive, strict].find? fun i => i.word == word

/-- An insertion mode is its word, or an object with the word as its only name. -/
def Insertion.ofJson? : Json → Option Insertion
  | .string word => ofWord? word
  | .object [(word, .null)] => ofWord? word
  | _ => none

/-- A path, or `null` for none. -/
def Path.orNull? (j : Json) : Option (Option Path) :=
  j.stringOrNull?.map fun s => s.map Path.mk

namespace Manifest

/-- The fields of the headers of a manifest. -/
def headerFields : List (FieldReader (PerUnit (Option Path))) :=
  [⟨"implementation", fun j h => do return { h with implementation := ← Path.orNull? j }⟩,
   ⟨"interface", fun j h => do return { h with interface := ← Path.orNull? j }⟩,
   ⟨"tests", fun j h => do return { h with tests := ← Path.orNull? j }⟩]

/-- The fields of a manifest. -/
def fields : List (FieldReader Manifest) :=
  [⟨"module", fun j m => do return { m with module := ← j.string? }⟩,
   ⟨"output", fun j m => do return { m with output := ← j.string? }⟩,
   ⟨"interface", fun j m => do return { m with interface := ← j.stringOrNull? }⟩,
   ⟨"tests", fun j m => do return { m with tests := ← j.stringOrNull? }⟩,
   ⟨"headers", fun j m => do
     return { m with headers := ← Json.readRecord headerFields (.const none) j }⟩,
   ⟨"insertion_check", fun j m => do return { m with insertion := ← Insertion.ofJson? j }⟩,
   ⟨"requests", fun j m => do
     return { m with requests := ← j.list? (Json.list? Json.string?) }⟩]

/-- The manifest that a JSON value is. -/
def ofJson? (j : Json) : Option Manifest := Json.readRecord fields empty j

/-- The manifest that a text writes. -/
def parse? (text : String) : Option Manifest := (Json.read? text).bind ofJson?

/-- The JSON value of a path that may be missing. -/
def pathJson (p : Option Path) : Json := .ofOption (p.map Path.text)

/-- The JSON value of a manifest. -/
def toJson (m : Manifest) : Json :=
  .object
    [("module", .string m.module),
     ("output", .string m.output),
     ("interface", .ofOption m.interface),
     ("tests", .ofOption m.tests),
     ("headers", .object
       [("implementation", pathJson m.headers.implementation),
        ("interface", pathJson m.headers.interface),
        ("tests", pathJson m.headers.tests)]),
     ("insertion_check", .string m.insertion.word),
     ("requests", .array (m.requests.map fun r => .array (r.map .string)))]

/-- The text of a manifest. -/
def text (m : Manifest) : String := String.ofList m.toJson.write

end Manifest

end WrapGen
