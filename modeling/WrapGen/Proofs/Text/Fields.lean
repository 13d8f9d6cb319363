import WrapGen.Text.Fields

/-!
# Fields of joined texts

A text is cut at every separator, so two texts with a separator between them have the
fields of both (`fields_append_separator`), and joined fields are read back one by one
(`fields_intercalate`). What is added without a separator is added to the last field.
-/
namespace WrapGen.Text

theorem fields_of_not_mem {sep : Char} : ∀ {cs : List Char}, sep ∉ cs → fields sep cs = [cs]
  | [], _ => rfl
  | c :: cs, h => by
    have hc : c ≠ sep := fun hc => h (hc ▸ List.mem_cons_self)
    have hcs : sep ∉ cs := fun hcs => h (List.mem_cons_of_mem c hcs)
    rw [fields, if_neg hc, fields_of_not_mem hcs]

theorem not_mem_of_mem_fields {sep : Char} : ∀ {cs field : List Char},
    field ∈ fields sep cs → sep ∉ field
  | [], field, h => by
    rw [fields, List.mem_singleton] at h
    rw [h]
    exact List.not_mem_nil
  | c :: cs, field, h => by
    obtain ⟨first, rest, hcs⟩ := List.exists_cons_of_ne_nil (fields_ne_nil sep cs)
    have hinside : ∀ f ∈ first :: rest, sep ∉ f := fun f hf =>
      not_mem_of_mem_fields (hcs ▸ hf)
    obtain ⟨hfirst, hrest⟩ := List.forall_mem_cons.mp hinside
    rw [fields, hcs] at h
    split at h
    · rcases List.mem_cons.mp h with rfl | h
      · exact List.not_mem_nil
      · exact hinside field h
    · rename_i hc
      rcases List.mem_cons.mp h with rfl | h
      · exact List.not_mem_cons_of_ne_of_not_mem (Ne.symm hc) hfirst
      · exact hrest field h

/-- What is added to a text without a separator is added to its last field. -/
theorem fields_append (sep : Char) : ∀ cs : List Char, ∃ before last,
    fields sep cs = before ++ [last] ∧
      ∀ added, sep ∉ added → fields sep (cs ++ added) = before ++ [last ++ added]
  | [] => ⟨[], [], rfl, fun _ h => fields_of_not_mem h⟩
  | c :: cs => by
    obtain ⟨before, last, hcs, ih⟩ := fields_append sep cs
    by_cases hc : c = sep
    · refine ⟨[] :: before, last, ?_, fun added h => ?_⟩
      · rw [fields, if_pos hc, hcs]
        rfl
      · rw [List.cons_append, fields, if_pos hc, ih added h]
        rfl
    · cases before with
      | nil =>
        refine ⟨[], c :: last, ?_, fun added h => ?_⟩
        · rw [fields, if_neg hc, hcs]
          rfl
        · rw [List.cons_append, fields, if_neg hc, ih added h]
          rfl
      | cons first before =>
        refine ⟨(c :: first) :: before, last, ?_, fun added h => ?_⟩
        · rw [fields, if_neg hc, hcs]
          rfl
        · rw [List.cons_append, fields, if_neg hc, ih added h]
          rfl

/-- Two texts with a separator between them have the fields of both. -/
theorem fields_append_separator (sep : Char) (ds : List Char) : ∀ cs : List Char,
    fields sep (cs ++ sep :: ds) = fields sep cs ++ fields sep ds
  | [] => if_pos rfl
  | c :: cs => by
    have ih := fields_append_separator sep ds cs
    obtain ⟨first, rest, hcs⟩ := List.exists_cons_of_ne_nil (fields_ne_nil sep cs)
    rw [List.cons_append, fields, fields, ih, hcs]
    by_cases hc : c = sep
    · rw [if_pos hc, if_pos hc]
      rfl
    · rw [if_neg hc, if_neg hc]
      rfl

/-- Joined fields are read back one by one. -/
theorem fields_intercalate {sep : Char} : ∀ {fs : List (List Char)}, fs ≠ [] →
    (∀ f ∈ fs, sep ∉ f) → fields sep ([sep].intercalate fs) = fs
  | [f], _, h => by
    rw [List.intercalate_singleton, fields_of_not_mem (h f List.mem_cons_self)]
  | f :: g :: fs, _, h => by
    obtain ⟨hf, hfs⟩ := List.forall_mem_cons.mp h
    rw [List.intercalate_cons_cons, List.append_assoc, List.singleton_append,
      fields_append_separator, fields_of_not_mem hf,
      fields_intercalate (List.cons_ne_nil g fs) hfs, List.singleton_append]

end WrapGen.Text
