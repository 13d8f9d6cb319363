import WrapGen.Manifest.Text
import WrapGen.Proofs.Json.Reading

/-!
# Manifests come back from their text

Writer and reader of manifests are made apart, from the fields in one case and
from the list of field readers in the other. A manifest that is written and read
is the same but for its directory, which the text does not hold.

* `parse?_text`: this for every manifest, with any characters in any of its names.
* `directory_of_parse?`: what is read has no directory.
* `parse_roundtrip`: so writing and reading again changes nothing, for manifests
  without a directory and for whatever a text was read as.
-/
namespace WrapGen

namespace Json

variable {α β : Type}

@[simp] theorem stringOrNull?_ofOption (s : Option String) :
    stringOrNull? (ofOption s) = some s := by
  cases s <;> rfl

theorem numberless_ofOption (s : Option String) : (ofOption s).numberless = true := by
  cases s <;> rfl

/-- A list is read from the values of its items. -/
theorem list?_map {item : Json → Option α} {f : α → Json} (h : ∀ a, item (f a) = some a) :
    ∀ xs : List α, list? item (.array (xs.map f)) = some xs
  | [] => rfl
  | x :: xs => by
    have ih := list?_map h xs
    unfold list? at ih ⊢
    simp [h, ih]

/-- What every step of a fold keeps, the fold keeps. -/
theorem foldlM_induction {P : α → Prop} {step : α → β → Option α} : ∀ {xs : List β} {r r' : α},
    (∀ x ∈ xs, ∀ r r', P r → step r x = some r' → P r') → P r → xs.foldlM step r = some r' → P r'
  | [], _, _, _, hr, h => by
    cases h
    exact hr
  | x :: xs, r, r', hstep, hr, h => by
    rw [List.foldlM_cons] at h
    obtain ⟨r₁, hx, h⟩ := Option.bind_eq_some_iff.mp h
    obtain ⟨hfirst, hrest⟩ := List.forall_mem_cons.mp hstep
    exact foldlM_induction hrest (hfirst r r₁ hr hx) h

/-- What the default record has and every field keeps, a record that is read has. -/
theorem readRecord_induction {P : α → Prop} {fields : List (FieldReader α)} {default r : α}
    (hd : P default) (hf : ∀ f ∈ fields, ∀ j r r', P r → f.set j r = some r' → P r') {j : Json}
    (h : readRecord fields default j = some r) : P r := by
  cases j with
  | null | bool | number | string => cases h
  | object members =>
    rw [readRecord] at h
    split at h
    · refine foldlM_induction (fun member _ r r' hr hset => ?_) hd h
      obtain ⟨f, hfind, hset⟩ := Option.bind_eq_some_iff.mp hset
      exact hf f (List.mem_of_find?_eq_some hfind) _ r r' hr hset
    · cases h
  | array items =>
    rw [readRecord] at h
    split at h
    · refine foldlM_induction (fun pair hp r r' hr hset => ?_) hd h
      exact hf pair.1 (List.of_mem_zip hp).1 _ r r' hr hset
    · cases h

end Json

open Json

@[simp] theorem Insertion.ofJson?_word (i : Insertion) : ofJson? (.string i.word) = some i := by
  cases i <;> rfl

@[simp] theorem Path.orNull?_pathJson (p : Option Path) :
    Path.orNull? (Manifest.pathJson p) = some p := by
  cases p <;> rfl

namespace Manifest

/-! ## Field by field -/

@[simp] theorem requests_toJson (requests : List RequestText) :
    list? (list? string?) (.array (requests.map fun r => .array (r.map .string))) =
      some requests := by
  have hrequest : ∀ r : RequestText, list? string? (.array (r.map .string)) = some r :=
    list?_map fun _ => rfl
  exact list?_map hrequest requests

@[simp] theorem headers_toJson (headers : PerUnit (Option Path)) :
    readRecord headerFields (.const none) (.object
      [("implementation", pathJson headers.implementation),
       ("interface", pathJson headers.interface),
       ("tests", pathJson headers.tests)]) = some headers := by
  simp [readRecord, headerFields, setMember]

/-- Each field is read from what is written for it. -/
theorem ofJson?_toJson (m : Manifest) : ofJson? m.toJson = some { m with directory := ⟨""⟩ } := by
  rw [ofJson?, toJson, readRecord, if_pos (by simp)]
  simp [fields, setMember, empty, string?]

theorem numberless_toJson (m : Manifest) : m.toJson.numberless = true := by
  have hrequest : ∀ r : RequestText, (array (r.map string)).numberless = true := by
    intro r
    refine allNumberless_iff.mpr fun j hj => ?_
    obtain ⟨s, -, rfl⟩ := List.mem_map.mp hj
    rfl
  have hrequests : allNumberless (m.requests.map fun r => array (r.map string)) = true := by
    refine allNumberless_iff.mpr fun j hj => ?_
    obtain ⟨r, -, rfl⟩ := List.mem_map.mp hj
    exact hrequest r
  simp [toJson, numberless, membersNumberless, pathJson, numberless_ofOption, hrequests]

/-! ## Texts -/

/-- What a manifest is read as after it is written. -/
theorem parse?_text (m : Manifest) : parse? m.text = some { m with directory := ⟨""⟩ } := by
  rw [parse?, text, read?_write m.numberless_toJson]
  exact m.ofJson?_toJson

/-- No field of a text says which directory holds it. -/
theorem directory_of_parse? {text : String} {m : Manifest} (h : parse? text = some m) :
    m.directory = ⟨""⟩ := by
  obtain ⟨j, -, h⟩ := Option.bind_eq_some_iff.mp h
  refine readRecord_induction (P := fun m => m.directory = ⟨""⟩) rfl ?_ h
  intro f hf j r r' hr hset
  simp only [fields, List.mem_cons, List.not_mem_nil, or_false] at hf
  rcases hf with rfl | rfl | rfl | rfl | rfl | rfl | rfl
  all_goals
    obtain ⟨x, -, hset⟩ := Option.bind_eq_some_iff.mp hset
    cases hset
    exact hr

/-- A manifest comes back from its text exactly if it has no directory. So does
whatever any text is read as. -/
theorem parse_roundtrip : (∀ m : Manifest, parse? m.text = some m ↔ m.directory = ⟨""⟩) ∧
    ∀ (text : String) (m : Manifest), parse? text = some m → parse? m.text = some m := by
  have hback : ∀ m : Manifest, parse? m.text = some m ↔ m.directory = ⟨""⟩ := by
    intro m
    rw [parse?_text, Option.some_inj]
    constructor
    · intro h
      rw [← h]
    · intro h
      rw [← h]
  exact ⟨hback, fun text m h => (hback m).mpr (directory_of_parse? h)⟩

/-- Quotes, control characters and a path beyond ASCII in the fields, and a text
in the form of an array that leaves out most of them. -/
theorem parse_roundtrip_escaped :
    let m : Manifest := { empty with
      module := "a\"\\\n\x01", interface := some "", insertion := .strict,
      headers := ⟨none, some ⟨"é\x1f/h"⟩, none⟩, requests := [["set", "\x7f"], []] }
    let text := "[\"m\", \"o\", null]"
    parse? m.text = some m ∧ ∃ read, parse? text = some read ∧ parse? read.text = some read := by
  intro m text
  have hread : parse? text = some { empty with module := "m", output := "o" } := by
    decide +kernel
  exact ⟨(parse_roundtrip.1 m).mpr rfl, _, hread, parse_roundtrip.2 text _ hread⟩

end Manifest

end WrapGen
