import WrapGen.Proofs.Files.Destinations
import WrapGen.Proofs.Files.Walk

/-!
# Joined paths and parents

A relative path that is joined to another is walked by the names of both, one after the
other. The other way round, the parent of a path is walked by all of its names but the last,
save single dots that the parent ends in. An extension goes with the joined path, except
where nothing can be written.

* `Path.names_join`, `Path.parent?_of_fields`: the names of joined paths and of parents.
* `Path.join_withExtension`: a joined path takes its extension from what is joined.
* `FileTree.placeToWrite_join`: a joined path leads to where the relative one leads from the
  directory.
* `FileTree.exists_holder`: the parent of the path of a file leads to the directory that
  holds it.
-/
namespace WrapGen

namespace Path

variable {p q : Path} {before : List (List Char)} {last : List Char}

/-! ## The first field -/

/-- A path is absolute if it has an empty field before another one. -/
theorem isAbsolute_iff_fields :
    p.isAbsolute = true ↔ ∃ first rest, Text.fields '/' p.chars = [] :: first :: rest := by
  unfold isAbsolute
  rw [beq_iff_eq]
  cases p.chars with
  | nil => simp [Text.fields]
  | cons c cs =>
    obtain ⟨first, rest, hcs⟩ := List.exists_cons_of_ne_nil (Text.fields_ne_nil '/' cs)
    rw [List.head?_cons, Option.some_inj, Text.fields, hcs]
    by_cases hc : c = '/'
    · rw [if_pos hc]
      exact iff_of_true hc ⟨first, rest, rfl⟩
    · rw [if_neg hc]
      exact iff_of_false hc (by simp)

/-- A path that does not end in a slash ends in a field that is not empty. -/
theorem last_ne_nil (hp : p.chars ≠ []) (hslash : p.endsInSlash = false)
    (h : Text.fields '/' p.chars = before ++ [last]) : last ≠ [] := by
  rintro rfl
  have hchars : p.chars = joinFields (before ++ [[]]) := by
    rw [← h]
    exact (Text.intercalate_fields '/' p.chars).symm
  cases before with
  | nil => exact hp hchars
  | cons first before =>
    rw [joinFields_concat _ (List.cons_ne_nil first before)] at hchars
    rw [endsInSlash, hchars, List.getLast?_concat] at hslash
    cases hslash

theorem names_ne_nil (hp : p.chars ≠ []) (hslash : p.endsInSlash = false) : p.names ≠ [] := by
  obtain ⟨before, last, hfields, -⟩ := Text.fields_append '/' p.chars
  rw [names, hfields, namesOf_append, namesOf_singleton (last_ne_nil hp hslash hfields)]
  exact List.concat_ne_nil _ _

/-! ## Joining -/

/-- What stands in front of a relative path that is joined to a path: the path, with a slash
unless it is empty or ends in one. -/
def lead (p : Path) : List Char :=
  if p.chars = [] ∨ p.endsInSlash then p.chars else p.chars ++ ['/']

theorem chars_join (hq : q.isAbsolute = false) (p : Path) :
    (p.join q).chars = p.lead ++ q.chars := by
  rw [join, if_neg (Bool.eq_false_iff.mp hq), lead, endsInSlash]
  split
  · rename_i hlast
    have hempty := List.getLast?_eq_none_iff.mp hlast
    rw [if_pos (Or.inl hempty), hempty, List.nil_append]
  · rename_i hlast
    rw [if_pos (Or.inr (by rw [hlast]; rfl))]
    exact String.toList_append
  · rename_i c hlast hslash
    have hsome : p.chars ≠ [] := by
      intro hempty
      rw [hempty] at hslash
      cases hslash
    have hno : ¬ (p.chars.getLast? == some '/') = true := by
      rw [hslash]
      simpa using hlast
    rw [if_neg (not_or.mpr ⟨hsome, hno⟩)]
    simp [chars]

theorem join_of_isAbsolute (hq : q.isAbsolute = true) (p : Path) : p.join q = q := if_pos hq

/-- Nothing stands in front for the empty path, and otherwise the path with a slash. -/
theorem lead_cases (p : Path) : p.chars = [] ∧ p.lead = [] ∨
    ∃ cs, p.lead = cs ++ ['/'] ∧ (p.chars = cs ++ ['/'] ∨ p.chars = cs ∧ cs ≠ []) := by
  by_cases hempty : p.chars = []
  · exact Or.inl ⟨hempty, (if_pos (Or.inl hempty)).trans hempty⟩
  by_cases hslash : p.endsInSlash = true
  · obtain ⟨cs, hcs⟩ := List.getLast?_eq_some_iff.mp (beq_iff_eq.mp hslash)
    exact Or.inr ⟨cs, (if_pos (Or.inr hslash)).trans hcs, Or.inl hcs⟩
  · exact Or.inr ⟨p.chars, if_neg (not_or.mpr ⟨hempty, hslash⟩), Or.inr ⟨rfl, hempty⟩⟩

/-- Joined paths have the names of both, and the fields of the second one at the end. -/
theorem fields_join (hq : q.isAbsolute = false) (p : Path) : ∃ before,
    Text.fields '/' (p.join q).chars = before ++ Text.fields '/' q.chars ∧
      namesOf before = p.names := by
  rw [chars_join hq, names]
  rcases p.lead_cases with ⟨hp, hlead⟩ | ⟨cs, hlead, hp⟩
  · rw [hp, hlead]
    exact ⟨[], rfl, rfl⟩
  · refine ⟨Text.fields '/' cs, ?_, ?_⟩
    · rw [hlead, List.append_assoc, List.singleton_append, Text.fields_append_separator]
    · rcases hp with hp | ⟨hp, -⟩
      · rw [hp, Text.fields_append_separator, namesOf_append]
        simp [namesOf, Text.fields]
      · rw [hp]

theorem names_join (hq : q.isAbsolute = false) (p : Path) :
    (p.join q).names = p.names ++ q.names := by
  obtain ⟨before, hfields, hbefore⟩ := fields_join hq p
  rw [names, hfields, namesOf_append, hbefore]
  rfl

theorem isAbsolute_join (hq : q.isAbsolute = false) (p : Path) :
    (p.join q).isAbsolute = p.isAbsolute := by
  unfold isAbsolute at hq ⊢
  rw [chars_join hq]
  rcases p.lead_cases with ⟨hp, hlead⟩ | ⟨cs, hlead, hp | ⟨hp, hne⟩⟩
  · rw [hp, hlead]
    exact hq
  · rw [hlead, hp]
    cases cs <;> rfl
  · rw [hlead, hp]
    obtain ⟨c, cs, rfl⟩ := List.exists_cons_of_ne_nil hne
    rfl

/-- A system that takes a joined path takes what is joined. -/
theorem fits_of_join (hq : q.isAbsolute = false) (hne : q.chars ≠ []) (h : (p.join q).Fits) :
    q.Fits := by
  have htext : (p.join q).text = String.ofList p.lead ++ q.text := by
    apply String.toList_inj.mp
    rw [String.toList_append, String.toList_ofList]
    exact chars_join hq p
  have hshort := h.short
  rw [htext, String.utf8ByteSize_append] at hshort
  refine ⟨fun hnul => h.noNul ?_, fun hempty => hne (String.toList_eq_nil_iff.mpr hempty),
    Nat.le_trans (Nat.le_add_left _ _) hshort⟩
  rw [chars_join hq]
  exact List.mem_append_right _ hnul

theorem endsInSlash_join (hq : q.isAbsolute = false) (hne : q.chars ≠ []) (p : Path) :
    (p.join q).endsInSlash = q.endsInSlash := by
  rw [endsInSlash, chars_join hq, List.getLast?_append_of_ne_nil _ hne, endsInSlash]

/-! ## Extensions -/

theorem eq_of_chars (h : p.chars = q.chars) : p = q := by
  cases p
  cases q
  exact congrArg Path.mk (String.toList_inj.mp h)

theorem chars_withExtension_ne_nil (p : Path) (ext : String) :
    (p.withExtension ext).chars ≠ [] := by
  unfold withExtension
  split
  · rename_i hhas
    intro hempty
    have hp : p = ⟨""⟩ := eq_of_chars hempty
    rw [hp] at hhas
    cases hhas
  · rw [chars_append]
    exact List.append_ne_nil_of_right_ne_nil _ (List.cons_ne_nil _ _)

theorem isAbsolute_append (q : Path) (ext : String) :
    (Path.mk (q.text ++ "." ++ ext)).isAbsolute = q.isAbsolute := by
  unfold isAbsolute
  rw [chars_append]
  cases q.chars <;> rfl

theorem isAbsolute_withExtension (q : Path) (ext : String) :
    (q.withExtension ext).isAbsolute = q.isAbsolute := by
  unfold withExtension
  split
  · rfl
  · exact isAbsolute_append q ext

/-- What is added to a joined path is added to what is joined. -/
theorem join_append (hq : q.isAbsolute = false) (p : Path) (ext : String) :
    Path.mk ((p.join q).text ++ "." ++ ext) = p.join ⟨q.text ++ "." ++ ext⟩ := by
  apply eq_of_chars
  rw [chars_append, chars_join hq, chars_join ((isAbsolute_append q ext).trans hq), chars_append,
    List.append_assoc]

theorem hasExtension_congr (h : p.lastPart? = q.lastPart?) (ext : String) :
    p.hasExtension ext = q.hasExtension ext := by
  rw [hasExtension, extension?, fileName?_eq, h, ← fileName?_eq, ← extension?, ← hasExtension]

/-- A joined path takes its extension from what is joined. If that says nothing, the path it
is joined to may have the extension already; the joined path then ends in a field that says
nothing. -/
theorem join_withExtension (p q : Path) (ext : String) :
    (p.join q).withExtension ext = p.join (q.withExtension ext) ∨
      (p.join q).withExtension ext = p.join q ∧
        ∃ before last, Text.fields '/' (p.join q).chars = before ++ [last] ∧
          isTrivial last = true := by
  cases hq : q.isAbsolute with
  | true =>
    have hext := (isAbsolute_withExtension q ext).trans hq
    rw [join_of_isAbsolute hq, join_of_isAbsolute hext]
    exact Or.inl rfl
  | false =>
    obtain ⟨before, hfields, -⟩ := fields_join hq p
    by_cases hsame : (p.join q).hasExtension ext = q.hasExtension ext
    · refine Or.inl ?_
      unfold withExtension
      rw [hsame]
      split
      · rfl
      · exact join_append hq p ext
    · -- the extensions differ, so that nothing in the second path is its last part
      have hnone : q.lastPart? = none := by
        by_contra hsome
        obtain ⟨part, hpart⟩ := Option.ne_none_iff_exists'.mp hsome
        refine hsame (hasExtension_congr ?_ ext)
        rw [hpart]
        unfold lastPart? at hpart ⊢
        rw [hfields, List.reverse_append, List.find?_append, hpart]
        rfl
      have hnot : q.hasExtension ext = false := by
        rw [hasExtension, extension?, fileName?_eq, hnone]
        rfl
      have hhas : (p.join q).hasExtension ext = true := by
        rw [hnot] at hsame
        exact Bool.of_not_eq_false hsame
      refine Or.inr ⟨if_pos hhas, ?_⟩
      obtain ⟨inner, last, hq, -⟩ := Text.fields_append '/' q.chars
      refine ⟨before ++ inner, last, by rw [hfields, hq, List.append_assoc], ?_⟩
      have htrivial := List.find?_eq_none.mp hnone last (by simp [hq])
      simpa using htrivial

/-! ## Parents -/

/-- Trivial fields give no names but single dots. -/
theorem eq_dot_of_mem_namesOf {fields : List (List Char)} (h : ∀ field ∈ fields, isTrivial field)
    {name : String} (hname : name ∈ namesOf fields) : name = "." := by
  obtain ⟨field, hfield, rfl⟩ := List.mem_map.mp hname
  obtain ⟨hmem, hsome⟩ := List.mem_filter.mp hfield
  have htrivial := h field hmem
  rw [isTrivial, Bool.or_eq_true, beq_iff_eq, beq_iff_eq] at htrivial
  rcases htrivial with rfl | rfl
  · cases hsome
  · rfl

/-- What is trimmed off the end is trivial. -/
theorem exists_trimEnd_append (fields : List (List Char)) :
    ∃ tail, fields = trimEnd fields ++ tail ∧ ∀ field ∈ tail, isTrivial field := by
  refine ⟨(fields.reverse.takeWhile isTrivial).reverse, ?_, fun field hfield => ?_⟩
  · rw [trimEnd, ← List.reverse_append, List.takeWhile_append_dropWhile, List.reverse_reverse]
  · exact List.mem_takeWhile_imp (List.mem_reverse.mp hfield)

/-- A path is absolute if its first field stands for the root. -/
theorem isAbsolute_of_lead {start : List Char} {lead body : List (List Char)}
    (hstart : (start, lead) ∈ starts) (hfields : Text.fields '/' p.chars = lead ++ body)
    (hbody : body ≠ []) (hhead : lead = [] → body.head? ≠ some []) :
    p.isAbsolute = (start == ['/']) := by
  obtain ⟨first, rest, rfl⟩ := List.exists_cons_of_ne_nil hbody
  rw [Bool.eq_iff_iff, isAbsolute_iff_fields, hfields]
  simp only [starts, List.mem_cons, Prod.mk.injEq, List.not_mem_nil, or_false] at hstart
  rcases hstart with ⟨rfl, rfl⟩ | ⟨rfl, rfl⟩ | ⟨rfl, rfl⟩
  · exact iff_of_true ⟨first, rest, rfl⟩ rfl
  · exact iff_of_false (by simp) (by decide)
  · refine iff_of_false ?_ (by decide)
    rintro ⟨second, more, h⟩
    exact hhead rfl (congrArg List.head? h)

/-- The parent has the parts of the path but the last, trimmed. -/
theorem parent?_of_parts {start : List Char} {body : List (List Char)}
    (h : p.parts = ⟨start, body ++ [last]⟩) :
    p.parent? = some (ofChars (Parts.chars ⟨start, trimEnd body⟩)) := by
  unfold parent?
  rw [h]
  dsimp only
  split
  · rename_i hempty
    exact absurd hempty (List.concat_ne_nil last body)
  · rw [List.dropLast_concat]

/-- The text of parts has their fields, after those that stand for the start. -/
theorem fields_ofChars {start : List Char} {lead body : List (List Char)}
    (hstart : (start, lead) ∈ starts) (hslash : ∀ field ∈ lead ++ (body ++ [last]), '/' ∉ field) :
    Text.fields '/' (ofChars (Parts.chars ⟨start, body ++ [last]⟩)).chars =
      lead ++ (body ++ [last]) := by
  rw [Parts.chars_concat hstart, ofChars, chars, String.toList_ofList, List.append_assoc]
  exact Text.fields_intercalate (by simp) hslash

/-- The parent starts like the path. It is walked by all of its names but the last, save
single dots that the trimmed path ends in. -/
theorem parent?_of_fields (h : Text.fields '/' p.chars = before ++ [last])
    (hlast : isTrivial last = false) : ∃ parent, p.parent? = some parent ∧
      parent.isAbsolute = p.isAbsolute ∧
      ∃ dots, (∀ name ∈ dots, name = ".") ∧ namesOf before = parent.names ++ dots := by
  obtain ⟨start, lead, body, hparts, rfl, hstart, hhead⟩ := parts_of_fields h hlast
  rw [List.append_assoc] at h
  obtain ⟨tail, hbody, htail⟩ := exists_trimEnd_append body
  have hdots : ∀ name ∈ namesOf tail, name = "." := fun _ => eq_dot_of_mem_namesOf htail
  refine ⟨_, parent?_of_parts hparts, ?_⟩
  rw [isAbsolute_of_lead hstart h (List.concat_ne_nil last body) hhead]
  rcases List.eq_nil_or_concat' (trimEnd body) with htrim | ⟨front, field, htrim⟩
  · -- nothing is left but the start
    rw [htrim] at hbody ⊢
    have hnames : namesOf (lead ++ body) = namesOf lead ++ namesOf tail := by
      rw [namesOf_append, hbody, List.nil_append]
    simp only [starts, List.mem_cons, Prod.mk.injEq, List.not_mem_nil, or_false] at hstart
    rcases hstart with ⟨rfl, rfl⟩ | ⟨rfl, rfl⟩ | ⟨rfl, rfl⟩
    · exact ⟨rfl, namesOf tail, hdots, hnames⟩
    · exact ⟨rfl, namesOf tail, hdots, hnames⟩
    · exact ⟨rfl, namesOf tail, hdots, hnames⟩
  · rw [htrim] at hbody ⊢
    have hslash : ∀ f ∈ lead ++ (front ++ [field]), '/' ∉ f := fun f hf => by
      have hmem : f ∈ Text.fields '/' p.chars := by
        rw [h, hbody]
        simp only [List.mem_append] at hf ⊢
        tauto
      exact Text.not_mem_of_mem_fields hmem
    have hfields := fields_ofChars hstart hslash
    have hsame : (body ++ [last]).head? = (front ++ [field]).head? := by
      rw [hbody]
      cases front <;> rfl
    refine ⟨isAbsolute_of_lead hstart hfields (List.concat_ne_nil field front) fun hlead => ?_,
      namesOf tail, hdots, ?_⟩
    · rw [← hsame]
      exact hhead hlead
    · rw [names, hfields, hbody, ← namesOf_append]
      simp only [List.append_assoc]

end Path

namespace FileTree

variable {t : FileTree} {p q : Path} {place holder : Place} {content : ByteArray}
  {before : List (List Char)} {last : List Char}

/-! ## Files have names -/

/-- A path that leads to something else than a directory ends in a name. -/
theorem isTrivial_last_eq_false (hfits : p.Fits) (hslash : p.endsInSlash = false)
    (hlocate : t.locate p = .ok place) (hplace : t.node? place ≠ some .directory)
    (hfields : Text.fields '/' p.chars = before ++ [last]) : Path.isTrivial last = false := by
  by_contra htrivial
  rw [Bool.not_eq_false, Path.isTrivial, Bool.or_eq_true, beq_iff_eq, beq_iff_eq] at htrivial
  rcases htrivial with rfl | rfl
  · exact Path.last_ne_nil hfits.chars_ne_nil hslash hfields rfl
  · -- a single dot stays at the directory it is looked up in
    have hnames : p.names = Path.namesOf before ++ ["."] := by
      rw [Path.names, hfields, Path.namesOf_append]
      rfl
    obtain ⟨holder, -, hstep⟩ := locate_concat hnames hlocate
    obtain ⟨hholder, hsame⟩ := step_eq_ok hstep
    exact hplace (hsame ▸ hholder)

/-- A path that does not lead to a directory cannot be written if it ends in no name. -/
theorem placeToWrite_ne_ok (hfields : Text.fields '/' p.chars = before ++ [last])
    (hlast : Path.isTrivial last = true) : t.placeToWrite p ≠ .ok place := by
  intro h
  obtain ⟨hfits, hslash, -, hlocate, hplace⟩ := placeToWrite_eq_ok_iff.mp h
  have hfalse := isTrivial_last_eq_false hfits hslash hlocate hplace hfields
  rw [hlast] at hfalse
  cases hfalse

/-- The extension of a joined path is that of what is joined, or the path cannot be
written. -/
theorem join_withExtension_or (t : FileTree) (p q : Path) (ext : String) :
    (p.join q).withExtension ext = p.join (q.withExtension ext) ∨
      ∀ place, t.placeToWrite ((p.join q).withExtension ext) ≠ .ok place := by
  rcases p.join_withExtension q ext with hsame | ⟨hsame, before, last, hfields, hlast⟩
  · exact Or.inl hsame
  · refine Or.inr fun place => ?_
    rw [hsame]
    exact placeToWrite_ne_ok hfields hlast

/-! ## What is joined is looked up in the directory -/

/-- A path that is joined to the path of a directory leads, if a system takes it, to where
the path leads for one who works in that directory. -/
theorem placeToWrite_join (hholder : t.locate p = .ok holder) (hq : q.chars ≠ []) :
    t.placeToWrite (p.join q) = .ok place ↔
      (p.join q).Fits ∧ (t.within holder).placeToWrite q = .ok place := by
  cases habsolute : q.isAbsolute with
  | true =>
    have hstart : (t.within holder).startOf q = t.startOf q := by
      rw [startOf, startOf, habsolute]
      rfl
    rw [Path.join_of_isAbsolute habsolute, placeToWrite_eq_ok_iff, placeToWrite_eq_ok_iff, locate,
      locate, hstart]
    tauto
  | false =>
    have hlocate : t.locate (p.join q) = (t.within holder).locate q := by
      have hstart : t.startOf (p.join q) = t.startOf p := by
        rw [startOf, startOf, Path.isAbsolute_join habsolute]
      rw [locate, hstart, Path.names_join habsolute, walk_append_of_ok hholder, locate, startOf,
        habsolute]
      rfl
    rw [placeToWrite_eq_ok_iff, placeToWrite_eq_ok_iff, hlocate, Path.endsInSlash_join habsolute hq,
      Path.names_join habsolute, node?_within]
    constructor
    · rintro ⟨hjoin, hslash, -, hlocate, hplace⟩
      exact ⟨hjoin, Path.fits_of_join habsolute hq hjoin, hslash, Path.names_ne_nil hq hslash,
        hlocate, hplace⟩
    · rintro ⟨hjoin, -, hslash, hsome, hlocate, hplace⟩
      exact ⟨hjoin, hslash, List.append_ne_nil_of_right_ne_nil _ hsome, hlocate, hplace⟩

/-- The parent of the path of a file leads to the directory in which its last name is
looked up. -/
theorem exists_holder (hread : t.read p = .ok content) : ∃ parent holder name,
    p.parent? = some parent ∧ t.locate parent = .ok holder ∧ ∃ place,
      t.step holder name = .ok place ∧ t.node? place = some (.file content) := by
  obtain ⟨hfits, hslash, place, hlocate, hfile⟩ := read_eq_ok hread
  obtain ⟨before, last, hfields, -⟩ := Text.fields_append '/' p.chars
  have hlast := isTrivial_last_eq_false hfits hslash hlocate (by simp [hfile]) hfields
  obtain ⟨parent, hparent, habsolute, dots, hdots, hbefore⟩ :=
    Path.parent?_of_fields hfields hlast
  have hnames : p.names = Path.namesOf before ++ [String.ofList last] := by
    rw [Path.names, hfields, Path.namesOf_append, Path.namesOf_singleton]
    rintro rfl
    cases hlast
  obtain ⟨holder, hwalk, hstep⟩ := locate_concat hnames hlocate
  rw [hbefore] at hwalk
  refine ⟨parent, holder, _, hparent, ?_, place, hstep, hfile⟩
  rw [locate, startOf, habsolute]
  exact walk_of_dots hdots hwalk

end FileTree

end WrapGen
