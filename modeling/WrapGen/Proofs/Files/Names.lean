import WrapGen.Path
import WrapGen.Proofs.Text.Fields
import Mathlib.Data.List.TakeWhile

/-!
# The last name of a path

A path is walked by its fields that are not empty. The last of them is the name
of the file. The file name that the extension is looked for in is another one:
fields that are a single dot do not count there.

* `lastName_withExtension`: the last name of a path with an extension ends in it,
  or is a single dot, which names a directory.
-/
namespace WrapGen

/-! ## The last items that count -/

section
variable {α : Type} {p q : α → Bool} {x : α} {xs : List α}

/-- What counts less strictly is found first; it is found again if it counts. -/
theorem find?_of_imp (hpq : ∀ x, q x = true → p x = true) (hp : xs.find? p = some x)
    (hx : q x = true) : xs.find? q = some x := by
  obtain ⟨-, before, after, rfl, hbefore⟩ := List.find?_eq_some_iff_append.mp hp
  refine List.find?_eq_some_iff_append.mpr ⟨hx, before, after, rfl, fun y hy => ?_⟩
  have hnot := hbefore y hy
  cases hq : q y with
  | false => rfl
  | true =>
    rw [hpq y hq] at hnot
    cases hnot

end

namespace Path

theorem chars_append (p : Path) (ext : String) :
    (Path.mk (p.text ++ "." ++ ext)).chars = p.chars ++ '.' :: ext.toList := by
  simp [chars]

/-! ## The file name -/

theorem getLast?_trimEnd (fields : List (List Char)) :
    (trimEnd fields).getLast? = fields.reverse.find? fun field => !isTrivial field := by
  rw [trimEnd, List.getLast?_reverse, List.find?_not_eq_head?_dropWhile]

/-- The last field that says something. -/
def lastPart? (p : Path) : Option (List Char) :=
  (Text.fields '/' p.chars).reverse.find? fun field => !isTrivial field

/-- The parts of a path end in its last field that says something. -/
theorem getLast?_body (p : Path) : p.parts.body.getLast? = p.lastPart? := by
  -- what a path starts with says nothing
  have hstart : ∀ {start : List Char} {fields : List (List Char)}, isTrivial start = true →
      (start :: fields).reverse.find? (fun field => !isTrivial field) =
        fields.reverse.find? fun field => !isTrivial field := by
    intro start fields h
    simp [List.find?_append, h]
  unfold parts lastPart?
  split
  · rename_i hfields
    rw [hfields, hstart rfl, getLast?_trimEnd]
  · rename_i hfields
    rw [hfields, hstart rfl, getLast?_trimEnd]
  · exact getLast?_trimEnd _

/-- The file name is the last field that says something, unless that is the parent. -/
theorem fileName?_eq (p : Path) :
    p.fileName? = p.lastPart?.filter fun name => name != ['.', '.'] := by
  rw [fileName?, getLast?_body]
  split
  · rename_i hlast
    rw [hlast]
    rfl
  · rename_i hlast
    cases h : p.lastPart? with
    | none => rfl
    | some name =>
      have hname : (name != ['.', '.']) = true := by
        rw [bne_iff_ne]
        rintro rfl
        exact hlast h
      rw [Option.filter_some, if_pos hname]

theorem find?_of_fileName {p : Path} {name : List Char} (h : p.fileName? = some name) :
    (Text.fields '/' p.chars).reverse.find? (fun field => !isTrivial field) = some name := by
  rw [fileName?_eq] at h
  exact (Option.filter_eq_some_iff.mp h).1

/-- What stands after the last dot of a file name ends it. -/
theorem suffix_of_splitName {name ext : List Char} (h : (splitName name).2 = some ext) :
    '.' :: ext <:+ name := by
  have hback := List.takeWhile_append_dropWhile (p := (· != '.')) (l := name.reverse)
  unfold splitName at h
  dsimp only at h
  split at h
  · cases h
  · cases h
  · rename_i dot stem _ hdrop
    cases h
    have hdot : dot = '.' := by
      have hhead := List.head?_dropWhile_not (· != '.') name.reverse
      rw [hdrop] at hhead
      simpa using hhead
    rw [hdrop, hdot] at hback
    exact ⟨stem.reverse, by simpa using congrArg List.reverse hback⟩

/-! ## The last name -/

/-- The last field that is not empty. -/
def lastName? (p : Path) : Option (List Char) :=
  ((Text.fields '/' p.chars).filter fun name => !name.isEmpty).getLast?

/-- The last name of a path with an extension ends in it, or is a single dot. -/
theorem lastName_withExtension {p : Path} {ext : String} {name : List Char}
    (hext : '/' ∉ ext.toList) (h : (p.withExtension ext).lastName? = some name) :
    name = ['.'] ∨ '.' :: ext.toList <:+ name := by
  unfold withExtension at h
  split at h
  · -- the path as it is, whose file name has the extension
    rename_i hhas
    rw [lastName?, List.getLast?_filter] at h
    rw [hasExtension, beq_iff_eq] at hhas
    obtain ⟨file, hfile, hsplit⟩ := Option.bind_eq_some_iff.mp hhas
    by_cases hdot : name = ['.']
    · exact Or.inl hdot
    refine Or.inr ?_
    have hname : name ≠ [] := by
      have hsome := List.find?_some h
      simpa using hsome
    have hfound := find?_of_imp (q := fun field => !isTrivial field)
      (fun field hf => by simp [isTrivial] at hf; simpa using hf.1) h
      (by simp [isTrivial, hname, hdot])
    cases (find?_of_fileName hfile).symm.trans hfound
    exact suffix_of_splitName hsplit
  · -- the extension is added to the last field
    rename_i hhas
    refine Or.inr ?_
    have hadded : '/' ∉ '.' :: ext.toList := by simpa using hext
    obtain ⟨before, last, -, hfields⟩ := Text.fields_append '/' p.chars
    rw [lastName?, chars_append, hfields _ hadded, List.filter_append] at h
    have hkeep : ([last ++ '.' :: ext.toList].filter fun name => !name.isEmpty) =
        [last ++ '.' :: ext.toList] := by simp
    rw [hkeep, List.getLast?_append, List.getLast?_singleton] at h
    cases h
    exact ⟨last, rfl⟩

end Path

end WrapGen
