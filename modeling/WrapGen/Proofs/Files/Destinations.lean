import WrapGen.Proofs.Files.Emission

/-!
# The three destinations

The extension of a unit is looked for in the file name, which skips slashes and single
dots at the end of a path, but it is added to the text. Either way the file name ends in
it: what is added to a text ends its last field, and makes it say something.

* `Path.fileName_withExtension`: the file name of a path with an extension.
* `Path.dropExtension_append`: an extension that was added to a file name at the end of
  a path is dropped again.
* `Destinations.ofBase_apart`: the destinations of the units have different file names,
  whatever they were made from.
-/
namespace WrapGen

namespace Path

variable {p : Path} {before : List (List Char)} {name ext : List Char}

/-! ## The last field -/

theorem joinFields_cons (first : List Char) {fields : List (List Char)} (h : fields ≠ []) :
    joinFields (first :: fields) = first ++ '/' :: joinFields fields := by
  obtain ⟨second, rest, rfl⟩ := List.exists_cons_of_ne_nil h
  simp [joinFields]

theorem joinFields_concat (last : List Char) : ∀ {fields : List (List Char)}, fields ≠ [] →
    joinFields (fields ++ [last]) = joinFields fields ++ '/' :: last
  | [first], _ => by simp [joinFields]
  | first :: second :: rest, _ => by
    have ih := joinFields_concat last (List.cons_ne_nil second rest)
    have hfirst := joinFields_cons first (List.cons_ne_nil second rest)
    rw [List.cons_append, joinFields_cons first (by simp), ih, hfirst, List.append_assoc,
      List.cons_append]

theorem trimEnd_append_of_not_trivial (h : isTrivial name = false) (fields : List (List Char)) :
    trimEnd (fields ++ [name]) = fields ++ [name] := by
  simp [trimEnd, h]

/-- What the parts of a path may start with, and the fields of the path that stand for it. -/
def starts : List (List Char × List (List Char)) := [(['/'], [[]]), (['.'], [['.']]), ([], [])]

theorem Parts.chars_concat {start : List Char} {lead : List (List Char)}
    (h : (start, lead) ∈ starts) (body : List (List Char)) (last : List Char) :
    Parts.chars ⟨start, body ++ [last]⟩ = joinFields (lead ++ body ++ [last]) := by
  obtain ⟨first, rest, hbody⟩ := List.exists_cons_of_ne_nil (List.concat_ne_nil last body)
  simp only [starts, List.mem_cons, Prod.mk.injEq, List.not_mem_nil, or_false] at h
  rw [List.append_assoc, hbody]
  rcases h with ⟨rfl, rfl⟩ | ⟨rfl, rfl⟩ | ⟨rfl, rfl⟩
  · exact (joinFields_cons [] (List.cons_ne_nil first rest)).symm
  · exact (joinFields_cons ['.'] (List.cons_ne_nil first rest)).symm
  · rfl

/-- A last field that says something ends the parts of a path. -/
theorem parts_of_fields (h : Text.fields '/' p.chars = before ++ [name])
    (hname : isTrivial name = false) : ∃ start lead body, p.parts = ⟨start, body ++ [name]⟩ ∧
      before = lead ++ body ∧ (start, lead) ∈ starts ∧
      (lead = [] → (body ++ [name]).head? ≠ some []) := by
  unfold parts
  rw [h]
  split
  · -- a path from the root
    rename_i first rest hfields
    obtain _ | ⟨start, body⟩ := before
    · simp at hfields
    obtain ⟨rfl, hbody⟩ := List.cons.inj hfields
    refine ⟨['/'], [[]], body, ?_, rfl, by simp [starts], nofun⟩
    rw [← hbody]
    exact congrArg (Parts.mk ['/']) (trimEnd_append_of_not_trivial hname body)
  · -- a path with a leading dot
    rename_i rest hfields
    obtain _ | ⟨start, body⟩ := before
    · obtain ⟨rfl, -⟩ := List.cons.inj hfields
      cases hname
    obtain ⟨rfl, hbody⟩ := List.cons.inj hfields
    refine ⟨['.'], [['.']], body, ?_, rfl, by simp [starts], nofun⟩
    rw [← hbody]
    exact congrArg (Parts.mk ['.']) (trimEnd_append_of_not_trivial hname body)
  · rename_i hroot _
    refine ⟨[], [], before, ?_, rfl, by simp [starts], fun _ hempty => ?_⟩
    · exact congrArg (Parts.mk []) (trimEnd_append_of_not_trivial hname before)
    · -- an empty first field stands before another one
      obtain _ | ⟨start, body⟩ := before
      · cases Option.some.inj hempty
        cases hname
      · cases Option.some.inj hempty
        obtain ⟨first, rest, hbody⟩ := List.exists_cons_of_ne_nil (List.concat_ne_nil name body)
        exact hroot first rest (congrArg (List.cons []) hbody)

/-- A last field that says something is the file name, unless it is the parent. -/
theorem fileName_of_fields (h : Text.fields '/' p.chars = before ++ [name])
    (hname : name ∉ [[], ['.'], ['.', '.']]) : p.fileName? = some name := by
  simp only [List.mem_cons, List.not_mem_nil, or_false, not_or] at hname
  obtain ⟨hempty, hdot, hparent⟩ := hname
  obtain ⟨start, lead, body, hparts, -⟩ := parts_of_fields h (by simp [isTrivial, hempty, hdot])
  rw [fileName?, hparts, List.getLast?_concat]
  split
  · rename_i hlast
    exact absurd (Option.some.inj hlast) hparent
  · rfl

/-! ## Extensions -/

theorem splitName_append (hname : name ≠ []) (hext : '.' ∉ ext) :
    splitName (name ++ '.' :: ext) = (name, some ext) := by
  have hback : (name ++ '.' :: ext).reverse = ext.reverse ++ '.' :: name.reverse := by simp
  have hplain : ∀ c ∈ ext.reverse, (c != '.') = true := by
    intro c hc
    rw [bne_iff_ne]
    rintro rfl
    exact hext (List.mem_reverse.mp hc)
  obtain ⟨c, cs, hcs⟩ := List.exists_cons_of_ne_nil (mt List.reverse_eq_nil_iff.mp hname)
  have hdrop : (name ++ '.' :: ext).reverse.dropWhile (· != '.') = '.' :: c :: cs := by
    rw [hback, List.dropWhile_append_of_pos hplain, hcs]
    rfl
  have htake : (name ++ '.' :: ext).reverse.takeWhile (· != '.') = ext.reverse := by
    rw [hback, List.takeWhile_append_of_pos hplain]
    simp
  simp only [splitName, hdrop, htake]
  rw [← hcs, List.reverse_reverse, List.reverse_reverse]

/-- A name that ends in an extension says something, and is not the parent. -/
theorem append_extension_not_mem {last : List Char} (hext : ext ∉ [[], ['.']]) :
    last ++ '.' :: ext ∉ [[], ['.'], ['.', '.']] := by
  simp only [List.mem_cons, List.not_mem_nil, or_false, not_or] at hext ⊢
  obtain ⟨hempty, hdot⟩ := hext
  have hlength := List.length_pos_of_ne_nil hempty
  refine ⟨by simp, fun h => ?_, fun h => ?_⟩
  · have htotal := congrArg List.length h
    simp only [List.length_append, List.length_cons, List.length_nil] at htotal
    omega
  · obtain _ | ⟨c, cs⟩ := last
    · exact hdot (List.cons.inj h).2
    · have htotal := congrArg List.length h
      simp only [List.length_append, List.length_cons, List.length_nil] at htotal
      omega

/-- The file name of a path with an extension ends in it. -/
theorem fileName_withExtension (p : Path) {ext : String} (hslash : '/' ∉ ext.toList)
    (hext : ext.toList ∉ [[], ['.']]) :
    ∃ name, (p.withExtension ext).fileName? = some name ∧ '.' :: ext.toList <:+ name := by
  unfold withExtension
  split
  · rename_i hhas
    rw [hasExtension, beq_iff_eq] at hhas
    obtain ⟨name, hname, hsplit⟩ := Option.bind_eq_some_iff.mp hhas
    exact ⟨name, hname, suffix_of_splitName hsplit⟩
  · obtain ⟨before, last, -, hfields⟩ := Text.fields_append '/' p.chars
    have hadded : '/' ∉ '.' :: ext.toList := by simpa using hslash
    have hlast := hfields ('.' :: ext.toList) hadded
    rw [← chars_append] at hlast
    exact ⟨_, fileName_of_fields hlast (append_extension_not_mem hext), List.suffix_append _ _⟩

/-! ## Dropping what was added -/

/-- What says nothing ends in nothing that says something. -/
theorem isTrivial_of_suffix {last : List Char} (h : isTrivial last = true) (hs : name <:+ last) :
    isTrivial name = true := by
  simp only [isTrivial, Bool.or_eq_true, beq_iff_eq] at h ⊢
  rcases h with rfl | rfl
  · exact Or.inl (List.suffix_nil.mp hs)
  · rcases List.suffix_cons_iff.mp hs with rfl | hs
    · exact Or.inr rfl
    · exact Or.inl (List.suffix_nil.mp hs)

/-- A path that ends in its file name has it as the last field, to which more can be
added. -/
theorem fields_of_fileName (h : p.fileName? = some name) (hend : name <:+ p.chars) :
    ∃ before, Text.fields '/' p.chars = before ++ [name] ∧
      ∀ added, '/' ∉ added → Text.fields '/' (p.chars ++ added) = before ++ [name ++ added] := by
  obtain ⟨before, last, hfields, hadd⟩ := Text.fields_append '/' p.chars
  have hfound := find?_of_fileName h
  rw [hfields, List.reverse_append, List.reverse_singleton, List.singleton_append,
    List.find?_cons] at hfound
  cases hlast : isTrivial last with
  | false =>
    rw [hlast] at hfound
    cases hfound
    exact ⟨before, hfields, hadd⟩
  | true =>
    -- the name stands before a last slash, so that the text ends in less than the name
    rw [hlast] at hfound
    have hmem : name ∈ before := List.mem_reverse.mp (List.mem_of_find?_eq_some hfound)
    have hslash : '/' ∉ name :=
      Text.not_mem_of_mem_fields (hfields ▸ List.mem_append_left [last] hmem)
    have hchars : p.chars = joinFields before ++ '/' :: last := by
      rw [← joinFields_concat last (List.ne_nil_of_mem hmem), ← hfields]
      exact (Text.intercalate_fields '/' p.chars).symm
    have hname := List.find?_some hfound
    rw [hchars] at hend
    rcases List.suffix_or_suffix_of_suffix hend (List.suffix_append _ _) with hs | hs
    · rcases List.suffix_cons_iff.mp hs with rfl | hs
      · exact absurd List.mem_cons_self hslash
      · rw [isTrivial_of_suffix hlast hs] at hname
        cases hname
    · exact absurd (hs.subset List.mem_cons_self) hslash

/-- The path up to the last dot of its last field. -/
theorem upToStem_of_fields {stem : List Char}
    (h : Text.fields '/' p.chars = before ++ [stem ++ '.' :: ext]) (hstem : stem ≠ [])
    (hdot : '.' ∉ ext) (hname : stem ++ '.' :: ext ∉ [[], ['.'], ['.', '.']]) :
    p.upToStem = ofChars (joinFields (before ++ [stem])) := by
  have hfile := fileName_of_fields h hname
  simp only [List.mem_cons, List.not_mem_nil, or_false, not_or] at hname
  obtain ⟨start, lead, body, hparts, rfl, hstart, -⟩ :=
    parts_of_fields h (by simp [isTrivial, hname])
  simp only [upToStem, hfile, hparts, splitName_append hstem hdot, List.dropLast_concat,
    Parts.chars_concat hstart]

theorem ne_of_fileName (h : p.fileName? = some name) : name ≠ [] ∧ name ≠ ['.'] := by
  have hname : isTrivial name = false := by
    simpa using List.find?_some (find?_of_fileName h)
  simpa [isTrivial] using hname

section
variable {ext : String} (h : p.fileName? = some name) (hend : name <:+ p.chars)
  (hslash : '/' ∉ ext.toList) (hdot : '.' ∉ ext.toList) (hext : ext.toList ≠ [])
include h hend hslash hdot hext

/-- An extension that is added to a file name at the end of a path is its extension. -/
theorem extension?_append : (Path.mk (p.text ++ "." ++ ext)).extension? = some ext.toList := by
  obtain ⟨before, -, hadd⟩ := fields_of_fileName h hend
  have hmore : ext.toList ∉ [[], ['.']] := by
    simp only [List.mem_cons, List.not_mem_nil, or_false, not_or]
    exact ⟨hext, fun he => hdot (he ▸ List.mem_cons_self)⟩
  have hlast := hadd ('.' :: ext.toList) (by simpa using hslash)
  rw [← chars_append] at hlast
  rw [extension?, fileName_of_fields hlast (append_extension_not_mem hmore), Option.bind_some,
    splitName_append (ne_of_fileName h).1 hdot]

/-- An extension that is added to a file name at the end of a path is dropped again. -/
theorem dropExtension_append : (Path.mk (p.text ++ "." ++ ext)).dropExtension = p := by
  obtain ⟨before, hfields, hadd⟩ := fields_of_fileName h hend
  obtain ⟨hempty, hsingle⟩ := ne_of_fileName h
  -- without the characters of the extension the dot is left, and goes with the stem
  have hshort : (Path.mk (p.text ++ "." ++ ext)).chars.take
      ((Path.mk (p.text ++ "." ++ ext)).chars.length - ext.toList.length) = p.chars ++ ['.'] := by
    rw [chars_append, List.append_cons, List.length_append, Nat.add_sub_cancel]
    exact List.take_left
  have hfields' : Text.fields '/' (ofChars (p.chars ++ ['.'])).chars =
      before ++ [name ++ '.' :: []] := by
    rw [← hadd ['.'] (by decide)]
    simp [ofChars, chars]
  have hnot : name ++ '.' :: [] ∉ [[], ['.'], ['.', '.']] := by
    have hends : ∀ other, name ++ ['.'] = other ++ ['.'] → name = other := fun _ he =>
      List.append_cancel_right he
    simp only [List.mem_cons, List.not_mem_nil, or_false, not_or]
    exact ⟨by simp, fun he => hempty (hends [] he), fun he => hsingle (hends ['.'] he)⟩
  rw [dropExtension, extension?_append h hend hslash hdot hext]
  dsimp only
  rw [hshort, upToStem_of_fields hfields' hempty List.not_mem_nil hnot, ← hfields, joinFields,
    Text.intercalate_fields]
  simp [ofChars, chars]

end

end Path

namespace Destinations

variable {d : Destinations}

/-- The file name of every unit ends in its extension. -/
theorem Apart.fileName (h : Apart d) (u : CodeUnit) :
    ∃ name, (d.get u).fileName? = some name ∧ '.' :: (extension u).toList <:+ name := by
  obtain ⟨p, hp⟩ := h u
  rw [hp]
  exact p.fileName_withExtension (by cases u <;> decide) (by cases u <;> decide)

/-- The file names of two units are different. -/
theorem Apart.fileName_inj (h : Apart d) {u v : CodeUnit}
    (he : (d.get u).fileName? = (d.get v).fileName?) : u = v := by
  obtain ⟨name, hname, hu⟩ := h.fileName u
  obtain ⟨name', hname', hv⟩ := h.fileName v
  rw [hname, hname'] at he
  cases he
  exact eq_of_suffix hu hv

/-- The extension of the implementation at the end of a base makes no difference. -/
theorem ofBase_append {base : Path} {name : List Char} (h : base.fileName? = some name)
    (hend : name <:+ base.chars)
    (hnot : base.hasExtension (extension .implementation) = false)
    (interface tests : Option Path) :
    ofBase ⟨base.text ++ "." ++ extension .implementation⟩ interface tests =
      ofBase base interface tests := by
  have hslash : '/' ∉ (extension .implementation).toList := by decide
  have hdot : '.' ∉ (extension .implementation).toList := by decide
  have hsome : (extension .implementation).toList ≠ [] := by decide
  have hextension := Path.extension?_append h hend hslash hdot hsome
  have hdrop := Path.dropExtension_append h hend hslash hdot hsome
  have hhas : Path.hasExtension ⟨base.text ++ "." ++ extension .implementation⟩
      (extension .implementation) = true := by
    rw [Path.hasExtension, hextension, beq_self_eq_true]
  have hstrip : strip ⟨base.text ++ "." ++ extension .implementation⟩ = strip base := by
    rw [strip, strip, if_pos hhas, hdrop, if_neg (by simp [hnot])]
  rw [ofBase, ofBase, hstrip]

/-- Whatever the paths were made from, every unit has a file name that ends in its
extension, so that two units never have the same path or the same file name and never
lead to the same place. A base that ends in its file name leads to the same paths with
the extension of the implementation and without it. -/
theorem ofBase_apart (base : Path) (interface tests : Option Path) :
    let d := ofBase base interface tests
    (∀ u, ∃ name, (d.get u).fileName? = some name ∧ '.' :: (extension u).toList <:+ name) ∧
    (∀ u v, u ≠ v → d.get u ≠ d.get v ∧ (d.get u).fileName? ≠ (d.get v).fileName?) ∧
    (∀ (t : FileTree) place u v, t.placeToWrite (d.get u) = .ok place →
      t.placeToWrite (d.get v) = .ok place → u = v) ∧
    ∀ name, base.fileName? = some name → name <:+ base.chars →
      base.hasExtension (extension .implementation) = false →
      ofBase ⟨base.text ++ "." ++ extension .implementation⟩ interface tests = d := by
  intro d
  have hd : d.Apart := apart_ofBase base interface tests
  refine ⟨hd.fileName, fun u v hne => ⟨fun he => ?_, fun he => hne (hd.fileName_inj he)⟩,
    fun t place u v => hd.distinct, fun name h hend hnot => ofBase_append h hend hnot _ _⟩
  exact hne (hd.fileName_inj (congrArg Path.fileName? he))

/-- A base with a dot in its name, an interface that is a parent and tests before slashes. -/
theorem ofBase_apart_dotted :
    let base : Path := ⟨"conv.v1"⟩
    let d := ofBase base (some ⟨".."⟩) (some ⟨"conv.v1//."⟩)
    let t : FileTree := ⟨[], []⟩
    base.fileName? = some "conv.v1".toList ∧ "conv.v1".toList <:+ base.chars ∧
      base.hasExtension "pyx" = false ∧
      ofBase ⟨"conv.v1.pyx"⟩ (some ⟨".."⟩) (some ⟨"conv.v1//."⟩) = d ∧
      CodeUnit.interface ≠ .tests ∧ d.interface ≠ d.tests ∧
      t.placeToWrite d.implementation = .ok ["conv.v1.pyx"] ∧
      t.placeToWrite d.tests ≠ .ok ["conv.v1.pyx"] := by
  intro base d t
  obtain ⟨-, hne, hplace, hsame⟩ := ofBase_apart base (some ⟨".."⟩) (some ⟨"conv.v1//."⟩)
  have hname : base.fileName? = some "conv.v1".toList := by decide
  have hend : "conv.v1".toList <:+ base.chars := List.suffix_rfl
  have hnot : base.hasExtension "pyx" = false := by decide
  have hwrite : t.placeToWrite d.implementation = .ok ["conv.v1.pyx"] := by decide +kernel
  refine ⟨hname, hend, hnot, hsame _ hname hend hnot, by decide,
    (hne .interface .tests (by decide)).1, hwrite, fun he => ?_⟩
  cases hplace t _ .implementation .tests hwrite he

/-- What stands before the last slash is not the end of the text. -/
example : (ofBase ⟨"conv/"⟩ none none).implementation = ⟨"conv/.pyx"⟩ ∧
    (ofBase ⟨"conv/.pyx"⟩ none none).implementation = ⟨"conv/.pyx.pyx"⟩ := by decide

end Destinations

end WrapGen
