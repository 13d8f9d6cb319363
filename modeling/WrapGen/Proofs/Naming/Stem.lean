import WrapGen.Code.Expr
import WrapGen.Proofs.Text.Fields
import WrapGen.Proofs.Text.Words

/-!
# Stems are stable, and the names that extend one

`Text.stem` reads a name as words and joins them again by underscores.
`IsStem` says what comes out: one or more words, one underscore between two.
Reading a stem again gives the stem itself, also after further words were
attached to it, so every level of a nested conversion starts from exactly the
name that the level above it chose.

`Extends p x` says that the name `x` is the stem `p` with more attached. The
temporaries of a conversion extend the stem of its source, and this is what
keeps them apart:

* `not_extends_stem`: no name extends its own stem.
* `not_extends_of_word`, `Extends.not_of_word`: under two different words the
  same stem has no name in common.
-/
namespace WrapGen.Text

/-- Whether a character separates words. -/
def separates (c : Char) : Bool := !c.isAlphanum

/-- A word of an identifier: ASCII letters and digits, at least one. -/
def IsWord (w : List Char) : Prop := w ≠ [] ∧ ∀ c ∈ w, separates c = false

instance (w : List Char) : Decidable (IsWord w) :=
  decidable_of_iff ((!w.isEmpty && w.all fun c => !separates c) = true) (by simp [IsWord])

/-- One or more words, joined by underscores. -/
def IsStem (s : String) : Prop :=
  ∃ ws : List (List Char), ws ≠ [] ∧ (∀ w ∈ ws, IsWord w) ∧ s.toList = ['_'].intercalate ws

/-- The name `x` is `p` with further words attached. -/
def Extends (p x : String) : Prop := ∃ q, IsStem q ∧ x = p ++ "_" ++ q

theorem stem_eq (name : String) : stem name =
    match words separates name.toList with
    | [] => placeholderStem
    | ws => String.ofList (['_'].intercalate ws) := rfl

theorem underscore_separates : separates '_' = true := by decide

theorem IsWord.no_underscore {w : List Char} (h : IsWord w) : '_' ∉ w := by
  intro hm
  have := h.2 '_' hm
  rw [underscore_separates] at this
  cases this

/-! ## Stems -/

theorem stem_of_isStem {s : String} (h : IsStem s) : stem s = s := by
  obtain ⟨ws, hne, hw, hs⟩ := h
  rw [stem_eq, hs, words_intercalate underscore_separates hw]
  cases ws with
  | nil => exact absurd rfl hne
  | cons w ws => simp only [← hs, String.ofList_toList]

theorem intercalate_append {us vs : List (List Char)} (hu : us ≠ []) (hv : vs ≠ []) :
    ['_'].intercalate (us ++ vs) = ['_'].intercalate us ++ '_' :: ['_'].intercalate vs := by
  induction us with
  | nil => exact absurd rfl hu
  | cons u us ih =>
    cases us with
    | nil =>
      obtain ⟨v, vs, rfl⟩ := List.exists_cons_of_ne_nil hv
      simp [List.intercalate_cons_cons]
    | cons u' us =>
      have := ih (by simp)
      simp only [List.cons_append, List.intercalate_cons_cons] at this ⊢
      rw [this]
      simp

theorem IsWord.isStem {w : String} (hw : IsWord w.toList) : IsStem w :=
  ⟨[w.toList], by simp, by simpa using hw, by rw [List.intercalate_singleton]⟩

theorem isStem_placeholder : IsStem placeholderStem :=
  IsWord.isStem (by decide)

theorem isStem_stem (name : String) : IsStem (stem name) := by
  rw [stem_eq]
  cases hw : words separates name.toList with
  | nil => exact isStem_placeholder
  | cons w ws =>
    refine ⟨w :: ws, by simp, ?_, String.toList_ofList⟩
    intro v hv
    rw [← hw] at hv
    exact mem_words hv

/-- Two stems joined by an underscore are a stem. -/
theorem IsStem.append {p q : String} (hp : IsStem p) (hq : IsStem q) : IsStem (p ++ "_" ++ q) := by
  obtain ⟨us, hu, h1, e1⟩ := hp
  obtain ⟨vs, hv, h2, e2⟩ := hq
  refine ⟨us ++ vs, by simp [hu], ?_, ?_⟩
  · intro w hw
    exact (List.mem_append.mp hw).elim (h1 w) (h2 w)
  · rw [intercalate_append hu hv, ← e1, ← e2, String.toList_append, String.toList_append]
    simp

/-- The stem of an expression is a stem. -/
theorem isStem_stem_expr : ∀ e : Code.Expr, IsStem e.stem
  | .name n => isStem_stem n
  | .scratch s => isStem_stem s
  | .attr e n => (isStem_stem_expr e).append (isStem_stem n)
  | .deref e => isStem_stem_expr e
  | .inc e => isStem_stem_expr e
  | .not e => isStem_stem_expr e
  | .cast _ e => isStem_stem_expr e
  | .call e _ => isStem_stem_expr e
  | .index e _ => by
    have := (isStem_stem_expr e).append (q := "at") (IsWord.isStem (by decide))
    rwa [String.append_assoc] at this
  | .hole | .literal _ | .binary .. | .isInstance .. | .hasAttr .. | .construct .. | .alloc _
  | .list _ | .dict _ => isStem_placeholder

/-- Stems are what reading a name leaves alone. -/
theorem stem_eq_self_iff {s : String} : stem s = s ↔ IsStem s :=
  ⟨fun h => h ▸ isStem_stem s, stem_of_isStem⟩

/-- Cut at its underscores, a stem gives words. -/
theorem isStem_iff_fields {s : String} : IsStem s ↔ ∀ w ∈ fields '_' s.toList, IsWord w := by
  constructor
  · rintro ⟨ws, hne, hw, hs⟩
    rwa [hs, fields_intercalate hne fun w hm => (hw w hm).no_underscore]
  · intro h
    exact ⟨_, fields_ne_nil '_' s.toList, h, (intercalate_fields '_' s.toList).symm⟩

/-- A text that is not empty, with no underscore at either end and no two in a row. -/
structure SingleUnderscores (s : String) : Prop where
  nonempty : s ≠ ""
  first : s.toList.head? ≠ some '_'
  last : s.toList.getLast? ≠ some '_'
  apart : ¬ ['_', '_'] <:+: s.toList

/-- An underscore out of place would leave an empty field. -/
theorem IsStem.singleUnderscores {s : String} (h : IsStem s) : SingleUnderscores s := by
  have hfields : [] ∉ fields '_' s.toList := fun hm => (isStem_iff_fields.mp h [] hm).1 rfl
  constructor
  case nonempty =>
    rintro rfl
    exact hfields List.mem_cons_self
  case first =>
    intro hfirst
    obtain ⟨cs, hcs⟩ := List.head?_eq_some_iff.mp hfirst
    rw [hcs] at hfields
    exact hfields (fields_append_separator '_' cs [] ▸ List.mem_cons_self)
  case last =>
    intro hlast
    obtain ⟨cs, hcs⟩ := List.getLast?_eq_some_iff.mp hlast
    rw [hcs, fields_append_separator] at hfields
    exact hfields (List.mem_append_right _ List.mem_cons_self)
  case apart =>
    rintro ⟨before, after, heq⟩
    have hsplit : s.toList = before ++ '_' :: ([] ++ '_' :: after) := by
      rw [← heq, List.append_assoc]
      rfl
    rw [hsplit, fields_append_separator, fields_append_separator] at hfields
    exact hfields (List.mem_append_right _ List.mem_cons_self)

/-! ## Names that extend a stem -/

theorem extends_of_word (p : String) {w : String} (hw : IsWord w.toList) :
    Extends p (p ++ "_" ++ w) :=
  ⟨w, hw.isStem, rfl⟩

theorem Extends.toList_eq {p x : String} (h : Extends p x) :
    ∃ more, x.toList = p.toList ++ '_' :: more := by
  obtain ⟨q, -, rfl⟩ := h
  exact ⟨q.toList, by rw [String.toList_append, String.toList_append]; simp⟩

theorem Extends.isPrefix {p x : String} (h : Extends p x) : p.toList <+: x.toList := by
  obtain ⟨more, h⟩ := h.toList_eq
  exact h ▸ List.prefix_append _ _

/-- Of two stems that are no prefixes of each other a name extends at most one. -/
theorem Extends.not_of_apart {p q x : String} (hp : ¬ p.toList <+: q.toList)
    (hq : ¬ q.toList <+: p.toList) (h : Extends p x) : ¬ Extends q x := fun h' =>
  (List.prefix_or_prefix_of_prefix h.isPrefix h'.isPrefix).elim hp hq

/-- What extends an extension of a stem extends the stem. -/
theorem Extends.trans {p y x : String} (hy : Extends p y) (h : Extends y x) : Extends p x := by
  obtain ⟨q, hq, rfl⟩ := hy
  obtain ⟨r, hr, rfl⟩ := h
  exact ⟨q ++ "_" ++ r, hq.append hr, by simp only [String.append_assoc]⟩

/-- A stem does not extend itself. -/
theorem not_extends_self (p : String) : ¬ Extends p p := by
  intro h
  obtain ⟨more, h⟩ := h.toList_eq
  have := congrArg List.length h
  rw [List.length_append, List.length_cons] at this
  omega

/-- No name extends its own stem: one that did would be its own stem. -/
theorem not_extends_stem (name : String) : ¬ Extends (stem name) name := by
  rintro ⟨q, hq, h⟩
  have hs : stem name = name := by
    rw [h]
    exact stem_of_isStem ((isStem_stem _).append hq)
  rw [hs] at h
  exact not_extends_self name ⟨q, hq, h⟩

/-- A list is cut at its first underscore in one way. -/
theorem cut_unique {a b u v : List Char} (ha : '_' ∉ a) (hb : '_' ∉ b)
    (h : a ++ '_' :: u = b ++ '_' :: v) : a = b ∧ u = v := by
  induction a generalizing b with
  | nil =>
    cases b with
    | nil => simpa using h
    | cons c b =>
      simp only [List.nil_append, List.cons_append, List.cons.injEq] at h
      exact absurd (h.1 ▸ List.mem_cons_self) hb
  | cons c a ih =>
    cases b with
    | nil =>
      simp only [List.nil_append, List.cons_append, List.cons.injEq] at h
      exact absurd (h.1 ▸ List.mem_cons_self) ha
    | cons d b =>
      simp only [List.cons_append, List.cons.injEq] at h
      obtain ⟨rfl, h⟩ := h
      obtain ⟨rfl, rfl⟩ := ih (fun hm => ha (by simp [hm])) (fun hm => hb (by simp [hm])) h
      exact ⟨rfl, rfl⟩

section
variable {p x v w : String}

/-- A stem with a word does not extend the stem with a word. -/
theorem not_extends_of_word (hw : IsWord w.toList) :
    ¬ Extends (p ++ "_" ++ v) (p ++ "_" ++ w) := by
  intro h
  obtain ⟨more, h⟩ := h.toList_eq
  simp only [String.toList_append, List.append_assoc, List.append_cancel_left_eq] at h
  have hm : '_' ∈ w.toList := by rw [h]; simp
  exact hw.no_underscore hm

/-- Under two different words a stem has no extension in common. -/
theorem Extends.not_of_word (hv : IsWord v.toList) (hw : IsWord w.toList) (hne : v ≠ w)
    (h : Extends (p ++ "_" ++ v) x) : ¬ Extends (p ++ "_" ++ w) x := by
  intro h'
  obtain ⟨m, h⟩ := h.toList_eq
  obtain ⟨m', h'⟩ := h'.toList_eq
  rw [h] at h'
  simp only [String.toList_append, List.append_assoc, List.append_cancel_left_eq] at h'
  exact hne (String.toList_inj.mp (cut_unique hv.no_underscore hw.no_underscore h').1)

end

/-! ## Suffixes -/

/-- A word behind an underscore. -/
def IsSuffix (s : String) : Prop := ∃ w, IsWord w.toList ∧ s = "_" ++ w

section
variable {p s t x : String}

theorem IsSuffix.extends (hs : IsSuffix s) : Extends p (p ++ s) := by
  obtain ⟨w, hw, rfl⟩ := hs
  rw [← String.append_assoc]
  exact extends_of_word p hw

theorem IsSuffix.isStem (hs : IsSuffix s) (hp : IsStem p) : IsStem (p ++ s) := by
  obtain ⟨w, hw, rfl⟩ := hs
  rw [← String.append_assoc]
  exact hp.append hw.isStem

/-- A stem is read as it is, also with a suffix. -/
theorem IsSuffix.stem_eq (hs : IsSuffix s) (hp : IsStem p) : stem (p ++ s) = p ++ s :=
  stem_of_isStem (hs.isStem hp)

/-- With two suffixes, neither name extends the other. -/
theorem IsSuffix.not_extends (hs : IsSuffix s) (ht : IsSuffix t) : ¬ Extends (p ++ s) (p ++ t) := by
  obtain ⟨v, hv, rfl⟩ := hs
  obtain ⟨w, hw, rfl⟩ := ht
  rw [← String.append_assoc, ← String.append_assoc]
  exact not_extends_of_word hw

/-- With two different suffixes, no name extends both. -/
theorem Extends.not_of_suffix (hs : IsSuffix s) (ht : IsSuffix t) (hne : s ≠ t)
    (h : Extends (p ++ s) x) : ¬ Extends (p ++ t) x := by
  obtain ⟨v, hv, rfl⟩ := hs
  obtain ⟨w, hw, rfl⟩ := ht
  rw [← String.append_assoc] at h ⊢
  exact h.not_of_word hv hw fun hvw => hne (hvw ▸ rfl)

theorem append_ne (hne : s ≠ t) : p ++ s ≠ p ++ t := by
  intro h
  have := congrArg String.toList h
  rw [String.toList_append, String.toList_append] at this
  exact hne (String.toList_inj.mp (List.append_cancel_left this))

/-- A stem does not extend itself with a suffix. -/
theorem IsSuffix.not_extends_stem (hs : IsSuffix s) : ¬ Extends (p ++ s) p :=
  fun h => not_extends_self p (hs.extends.trans h)

end

end WrapGen.Text
