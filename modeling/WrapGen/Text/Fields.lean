/-!
# Fields

A text cut at every occurrence of a separator, and put together again.

Main statement: `intercalate_fields`, nothing is lost.
-/
namespace WrapGen.Text

/-- The fields of a text; one more than there are separators. -/
def fields (sep : Char) : List Char → List (List Char)
  | [] => [[]]
  | c :: cs =>
    if c = sep then [] :: fields sep cs
    else
      match fields sep cs with
      | [] => [[c]]
      | first :: rest => (c :: first) :: rest

theorem fields_ne_nil (sep : Char) (cs : List Char) : fields sep cs ≠ [] := by
  cases cs with
  | nil => simp [fields]
  | cons c cs =>
    simp only [fields]
    split
    · simp
    · split <;> simp

theorem intercalate_fields (sep : Char) (cs : List Char) :
    [sep].intercalate (fields sep cs) = cs := by
  induction cs with
  | nil => simp [fields]
  | cons c cs ih =>
    simp only [fields]
    by_cases h : c = sep
    · subst h
      obtain ⟨first, rest, hf⟩ := List.exists_cons_of_ne_nil (fields_ne_nil c cs)
      rw [if_pos rfl]
      rw [hf] at ih ⊢
      simp [← ih]
    · rw [if_neg h]
      obtain ⟨first, rest, hf⟩ := List.exists_cons_of_ne_nil (fields_ne_nil sep cs)
      rw [hf] at ih ⊢
      cases rest <;> simp_all

end WrapGen.Text
