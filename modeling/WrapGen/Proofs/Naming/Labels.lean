import WrapGen.Bundle.Names
import WrapGen.Catalog.Builtin
import WrapGen.Proofs.Naming.Polish
import WrapGen.Proofs.Results
import WrapGen.Wrapper.Content

/-!
# Labels of generated code

A label says what a name of generated code is for: a class in one of three
roles, or a function in one of three, for a container type. `Label.text` spells
it in the symbols of the type. Class names write the symbols one after the
other, with `_` and `Iter` as two more; function names are words joined by
underscores.

* `classPart_eq`, `functionPart_eq`, `ident_eq`: the spellings of a type are
  writings of its symbols.
* `text_injective`: in a catalog whose words are fit for this (`Legible`), no two
  labels have one text.
* `builtin_legible`: the built-in catalog is one.
-/
namespace WrapGen

/-! ## Writings of symbols -/

/-- A sign of class names. -/
inductive Letter where
  | hidden
  | iterator
  | symbol (s : Symbol)
  deriving DecidableEq, Repr

namespace Letter

/-- Every letter. -/
def all : List Letter := [hidden, iterator] ++ Symbol.all.map symbol

theorem mem_all (l : Letter) : l ∈ all := by
  cases l with
  | hidden => exact List.mem_cons_self
  | iterator => exact List.mem_cons_of_mem _ List.mem_cons_self
  | symbol s => exact List.mem_append_right _ (List.mem_map_of_mem (Symbol.mem_all s))

end Letter

/-- The word of a container in class names. -/
def Container.classWord : Container → String
  | vector => "Vector"
  | set => "Set"
  | map => "Map"

namespace Catalog

/-- The word of a symbol, a primitive's from its entry. -/
def word (c : Catalog) (part : Entry → String) (head : Container → String) : Symbol → String
  | .primitive p =>
    match c.entry p with
    | .ok e => part e
    | .error _ => ""
  | .container k => head k

/-- The word of a symbol in class names. -/
def classWord (c : Catalog) : Symbol → String := c.word Entry.classPart Container.classWord

/-- The word of a symbol in function names. -/
def functionWord (c : Catalog) : Symbol → String := c.word Entry.functionPart Container.token

/-- A sign of class names as text. -/
def letter (c : Catalog) : Letter → String
  | .hidden => "_"
  | .iterator => "Iter"
  | .symbol s => c.classWord s

/-- The signs of a class name, one after the other. -/
def spelled (c : Catalog) (ls : List Letter) : String := String.join (ls.map c.letter)

variable {c : Catalog}

theorem spelled_append (as bs : List Letter) :
    c.spelled (as ++ bs) = c.spelled as ++ c.spelled bs := by
  unfold spelled
  rw [List.map_append, String.join_append]

theorem spelled_cons (l : Letter) (ls : List Letter) :
    c.spelled (l :: ls) = c.letter l ++ c.spelled ls := String.join_cons

theorem word_primitive {part : Entry → String} {head : Container → String} {p : Primitive}
    {e : Entry} (he : c.entry p = .ok e) : c.word part head (.primitive p) = part e := by
  unfold word
  dsimp only
  rw [he]

/-- A class part is the signs of the type. -/
theorem classPart_eq : ∀ {t : ElementType} {text : String}, c.classPart t = .ok text →
    text = c.spelled (t.polish.map .symbol)
  | .primitive p, text, h => by
    obtain ⟨e, he, h⟩ := bind_eq_ok h
    cases h
    show e.classPart = String.join [c.classWord (.primitive p)]
    rw [classWord, word_primitive he, String.join_cons, String.join_nil, String.append_empty]
  | .vector e, text, h => by
    obtain ⟨x, hx, h⟩ := bind_eq_ok h
    cases h
    rw [classPart_eq hx, ElementType.polish, List.map_cons, spelled_cons]
    rfl
  | .set e, text, h => by
    obtain ⟨x, hx, h⟩ := bind_eq_ok h
    cases h
    rw [classPart_eq hx, ElementType.polish, List.map_cons, spelled_cons]
    rfl
  | .map k v, text, h => by
    obtain ⟨x, hx, h⟩ := bind_eq_ok h
    obtain ⟨y, hy, h⟩ := bind_eq_ok h
    cases h
    rw [ElementType.polish, List.map_cons, List.map_append, spelled_cons, spelled_append,
      ← classPart_eq hx, ← classPart_eq hy]
    exact String.append_assoc

/-- A word before the words of a type. -/
theorem intercalate_polish (w : Symbol → String) (lead : String) (t : ElementType) :
    "_".intercalate (lead :: t.polish.map w) = lead ++ "_" ++ "_".intercalate (t.polish.map w) := by
  rw [String.intercalate_cons_of_ne_nil]
  simpa using t.polish_ne_nil

/-- The words of two types, one after the other. -/
theorem intercalate_polish_append (w : Symbol → String) (t u : ElementType) :
    "_".intercalate ((t.polish ++ u.polish).map w) =
      "_".intercalate (t.polish.map w) ++ "_" ++ "_".intercalate (u.polish.map w) := by
  rw [List.map_append, String.intercalate_append_of_ne_nil]
  · simpa using t.polish_ne_nil
  · simpa using u.polish_ne_nil

/-- The words of a map are those of its two types. -/
theorem intercalate_map (w : Symbol → String) (k v : ElementType) :
    "_".intercalate ((ElementType.map k v).polish.map w) = w (.container .map) ++ "_" ++
      ("_".intercalate (k.polish.map w) ++ "_" ++ "_".intercalate (v.polish.map w)) := by
  rw [ElementType.polish, List.map_cons, String.intercalate_cons_of_ne_nil,
    intercalate_polish_append]
  simpa using fun h => absurd h k.polish_ne_nil

/-- A function part is the words of the type. -/
theorem functionPart_eq : ∀ {t : ElementType} {text : String}, c.functionPart t = .ok text →
    text = "_".intercalate (t.polish.map c.functionWord)
  | .primitive p, text, h => by
    obtain ⟨e, he, h⟩ := bind_eq_ok h
    cases h
    rw [ElementType.polish, List.map_singleton, String.intercalate_singleton, functionWord,
      word_primitive he]
    rfl
  | .vector e, text, h => by
    obtain ⟨x, hx, h⟩ := bind_eq_ok h
    cases h
    rw [ElementType.polish, List.map_cons, intercalate_polish, ← functionPart_eq hx]
    rfl
  | .set e, text, h => by
    obtain ⟨x, hx, h⟩ := bind_eq_ok h
    cases h
    rw [ElementType.polish, List.map_cons, intercalate_polish, ← functionPart_eq hx]
    rfl
  | .map k v, text, h => by
    obtain ⟨x, hx, h⟩ := bind_eq_ok h
    obtain ⟨y, hy, h⟩ := bind_eq_ok h
    cases h
    rw [intercalate_map, ← functionPart_eq hx, ← functionPart_eq hy]
    show "map_" ++ x ++ "_" ++ y = "map" ++ "_" ++ (x ++ "_" ++ y)
    simp only [← String.append_assoc]
    rfl

end Catalog

/-- The identifier of a type is its tokens. -/
theorem ElementType.ident_eq : ∀ t : ElementType,
    t.ident = "_".intercalate (t.polish.map Symbol.token)
  | .primitive p => String.intercalate_singleton.symm
  | .vector e => by
    rw [polish, List.map_cons, Catalog.intercalate_polish, ← ident_eq e]
    rfl
  | .set e => by
    rw [polish, List.map_cons, Catalog.intercalate_polish, ← ident_eq e]
    rfl
  | .map k v => by
    rw [Catalog.intercalate_map, ← ident_eq k, ← ident_eq v]
    show "map_" ++ k.ident ++ "_" ++ v.ident = "map" ++ "_" ++ (k.ident ++ "_" ++ v.ident)
    simp only [← String.append_assoc]
    rfl

/-! ## Labels -/

namespace WrappedType

/-- The container of the type. -/
def container : WrappedType → Container
  | set _ => .set
  | map _ _ => .map

/-- The symbols of what is in the container. -/
def inside : WrappedType → List Symbol
  | set e => e.polish
  | map k v => k.polish ++ v.polish

theorem polish_eq (t : WrappedType) :
    t.elementType.polish = .container t.container :: t.inside := by
  cases t <;> rfl

theorem inside_ne_nil (t : WrappedType) : t.inside ≠ [] := by
  cases t with
  | set e => exact e.polish_ne_nil
  | map k v => exact List.append_ne_nil_of_left_ne_nil k.polish_ne_nil _

/-- The container and the symbols inside tell the type. -/
theorem eq_of_polish {t u : WrappedType} (hc : t.container = u.container)
    (hi : t.inside = u.inside) : t = u := by
  have hp : t.elementType = u.elementType := by
    refine ElementType.polish_injective ?_
    rw [polish_eq, polish_eq, hc, hi]
  cases t <;> cases u <;> cases hp <;> rfl

end WrappedType

/-- What a class is for. -/
inductive ClassRole where
  | iterator
  | extension
  | user
  deriving DecidableEq, Repr

/-- What a function is for. -/
inductive FunctionRole where
  | toStorage
  | toHost
  | test
  deriving DecidableEq, Repr

/-- What a name at the top level of generated code is for. -/
inductive Label where
  | ofClass (r : ClassRole) (t : WrappedType)
  | ofFunction (r : FunctionRole) (t : WrappedType)
  deriving DecidableEq, Repr

/-- The signs of the name of a class. -/
def ClassRole.letters (t : WrappedType) : ClassRole → List Letter
  | iterator => .hidden :: .symbol (.container t.container) :: .iterator :: t.inside.map .symbol
  | extension => .hidden :: .symbol (.container t.container) :: t.inside.map .symbol
  | user => .symbol (.container t.container) :: t.inside.map .symbol

/-- The words that the name of a function starts with. -/
def FunctionRole.lead : FunctionRole → WrappedType → List String
  | toStorage, .set _ => ["py", "to", "cpp", "set"]
  | toStorage, .map _ _ => ["dict", "to", "map"]
  | toHost, .set _ => ["cpp", "to", "py", "set"]
  | toHost, .map _ _ => ["map", "to", "dict"]
  | test, .set _ => ["test", "set"]
  | test, .map _ _ => ["test", "map"]

/-- The word of a symbol in the name of a function. -/
def FunctionRole.word (c : Catalog) : FunctionRole → Symbol → String
  | toStorage | toHost => c.functionWord
  | test => Symbol.token

/-- The words of the name of a function. -/
def FunctionRole.words (c : Catalog) (t : WrappedType) (r : FunctionRole) : List String :=
  r.lead t ++ t.inside.map (r.word c)

/-- The name that a label stands for. -/
def Label.text (c : Catalog) : Label → String
  | ofClass r t => c.spelled (r.letters t)
  | ofFunction r t => "_".intercalate (r.words c t)

/-! ## No two labels have one text -/

/-- The words of a catalog can be told apart. -/
structure Catalog.Legible (c : Catalog) : Prop where
  /-- No sign of class names starts another. -/
  letters : PrefixFree fun l => (c.letter l).toList
  /-- What stands in function names are words. -/
  words : ∀ s, Text.IsWord (c.functionWord s).toList
  /-- They are different for different symbols. -/
  distinct : ∀ r s, c.functionWord r = c.functionWord s → r = s

/-- The signs of a class name tell what it is for. -/
theorem ClassRole.letters_injective {r r' : ClassRole} {t t' : WrappedType}
    (h : r.letters t = r'.letters t') : r = r' ∧ t = t' := by
  have hinside : t.inside.map Letter.symbol = t'.inside.map Letter.symbol →
      t.inside = t'.inside :=
    (List.map_inj_right fun _ _ hs => Letter.symbol.inj hs).mp
  have hiterator : ∀ {ss : List Symbol} {ls : List Letter},
      ss.map Letter.symbol ≠ .iterator :: ls := by
    intro ss ls hs
    cases ss with
    | nil => cases hs
    | cons s ss => cases (List.cons.inj hs).1
  cases r <;> cases r' <;>
    simp only [letters, List.cons.injEq, reduceCtorEq, false_and, true_and,
      Letter.symbol.injEq, Symbol.container.injEq] at h
  case iterator.iterator => exact ⟨rfl, WrappedType.eq_of_polish h.1 (hinside h.2)⟩
  case iterator.extension => exact absurd h.2.symm hiterator
  case extension.iterator => exact absurd h.2 hiterator
  case extension.extension => exact ⟨rfl, WrappedType.eq_of_polish h.1 (hinside h.2)⟩
  case user.user => exact ⟨rfl, WrappedType.eq_of_polish h.1 (hinside h.2)⟩

/-- The words that a function name starts with tell its role and its container. -/
theorem FunctionRole.lead_cut {r r' : FunctionRole} {t t' : WrappedType} {x y : List String}
    (h : r.lead t ++ x = r'.lead t' ++ y) : r = r' ∧ t.container = t'.container ∧ x = y := by
  cases r <;> cases t <;> cases r' <;> cases t' <;>
    simp [lead, WrappedType.container] at h ⊢ <;> exact h

namespace Catalog.Legible

variable {c : Catalog} (hc : c.Legible)
include hc

theorem letter_ne_nil (l : Letter) : (c.letter l).toList ≠ [] := by
  intro hl
  have hp : ∀ m, l = m := by
    intro m
    refine hc.letters l m ?_
    show (c.letter l).toList <+: (c.letter m).toList
    rw [hl]
    exact List.nil_prefix
  cases (hp .hidden).symm.trans (hp .iterator)

theorem spelled_injective {as bs : List Letter} (h : c.spelled as = c.spelled bs) : as = bs := by
  have hl := congrArg String.toList h
  unfold spelled at hl
  rw [String.toList_join, String.toList_join, List.flatMap_map, List.flatMap_map] at hl
  exact hc.letters.flatMap_injective hc.letter_ne_nil hl

theorem word_isWord (r : FunctionRole) (s : Symbol) : Text.IsWord (r.word c s).toList := by
  cases r with
  | toStorage => exact hc.words s
  | toHost => exact hc.words s
  | test =>
    have hall : ∀ s ∈ Symbol.all, Text.IsWord s.token.toList := by decide
    exact hall s (Symbol.mem_all s)

theorem word_injective {r : FunctionRole} {s s' : Symbol} (h : r.word c s = r.word c s') :
    s = s' := by
  cases r with
  | toStorage => exact hc.distinct s s' h
  | toHost => exact hc.distinct s s' h
  | test =>
    have hall : ∀ s ∈ Symbol.all, ∀ s' ∈ Symbol.all, s.token = s'.token → s = s' := by decide
    exact hall s (Symbol.mem_all s) s' (Symbol.mem_all s') h

theorem words_isWord (r : FunctionRole) (t : WrappedType) :
    ∀ w ∈ r.words c t, Text.IsWord w.toList := by
  intro w hw
  rcases List.mem_append.mp hw with hw | hw
  · have hlead : ∀ w ∈ r.lead t, Text.IsWord w.toList := by
      cases r <;> cases t <;> simp only [FunctionRole.lead] <;> decide
    exact hlead w hw
  · obtain ⟨s, -, rfl⟩ := List.mem_map.mp hw
    exact hc.word_isWord r s

/-- The words of a function name tell what it is for. -/
theorem words_injective {r r' : FunctionRole} {t t' : WrappedType}
    (h : r.words c t = r'.words c t') : r = r' ∧ t = t' := by
  obtain ⟨rfl, hcontainer, hinside⟩ := FunctionRole.lead_cut h
  refine ⟨rfl, WrappedType.eq_of_polish hcontainer ?_⟩
  exact (List.map_inj_right fun _ _ hs => hc.word_injective hs).mp hinside

end Catalog.Legible

theorem head?_append {x : String} {a : Char} (h : x.toList.head? = some a) (y : String) :
    (x ++ y).toList.head? = some a := by
  rw [String.toList_append, List.head?_append, h]
  rfl

/-- Class names start with an underscore or an upper-case letter. -/
theorem ClassRole.head?_letters (c : Catalog) (r : ClassRole) (t : WrappedType) :
    ∃ a : Char, a.isLower = false ∧ (c.spelled (r.letters t)).toList.head? = some a := by
  have hstart : ∀ {l : Letter} {ls : List Letter} {a : Char} (x : String), c.letter l = x →
      x.toList.head? = some a → (c.spelled (l :: ls)).toList.head? = some a := by
    intro l ls a x hl hx
    rw [c.spelled_cons, hl]
    exact head?_append hx _
  cases r with
  | iterator => exact ⟨'_', rfl, hstart "_" rfl rfl⟩
  | extension => exact ⟨'_', rfl, hstart "_" rfl rfl⟩
  | user =>
    cases t with
    | set e => exact ⟨'S', rfl, hstart "Set" rfl rfl⟩
    | map k v => exact ⟨'M', rfl, hstart "Map" rfl rfl⟩

/-- Function names start with a lower-case letter. -/
theorem FunctionRole.head?_words (c : Catalog) (r : FunctionRole) (t : WrappedType) :
    ∃ a : Char, a.isLower = true ∧ ("_".intercalate (r.words c t)).toList.head? = some a := by
  have hlead : ∀ {w v : String} {ws : List String} {a : Char}, w.toList.head? = some a →
      ("_".intercalate (w :: v :: ws)).toList.head? = some a := by
    intro w v ws a hw
    rw [String.intercalate_cons_cons, String.append_assoc]
    exact head?_append hw _
  cases r <;> cases t
  case toStorage.set => exact ⟨'p', rfl, hlead rfl⟩
  case toStorage.map => exact ⟨'d', rfl, hlead rfl⟩
  case toHost.set => exact ⟨'c', rfl, hlead rfl⟩
  case toHost.map => exact ⟨'m', rfl, hlead rfl⟩
  case test.set => exact ⟨'t', rfl, hlead rfl⟩
  case test.map => exact ⟨'t', rfl, hlead rfl⟩

/-- No class has the name of a function. -/
theorem spelled_ne_intercalate (c : Catalog) (r : ClassRole) (r' : FunctionRole)
    (t t' : WrappedType) : c.spelled (r.letters t) ≠ "_".intercalate (r'.words c t') := by
  intro h
  obtain ⟨a, ha, hclass⟩ := r.head?_letters c t
  obtain ⟨b, hb, hfunction⟩ := r'.head?_words c t'
  rw [h, hfunction] at hclass
  cases hclass
  rw [ha] at hb
  cases hb

/-- In a legible catalog no two labels have one text. -/
theorem Catalog.Legible.text_injective {c : Catalog} (hc : c.Legible) {l l' : Label}
    (h : l.text c = l'.text c) : l = l' := by
  cases l with
  | ofClass r t =>
    cases l' with
    | ofClass r' t' =>
      obtain ⟨rfl, rfl⟩ := ClassRole.letters_injective (hc.spelled_injective h)
      rfl
    | ofFunction r' t' => exact absurd h (spelled_ne_intercalate c r r' t t')
  | ofFunction r t =>
    cases l' with
    | ofClass r' t' => exact absurd h.symm (spelled_ne_intercalate c r' r t' t)
    | ofFunction r' t' =>
      obtain ⟨rfl, rfl⟩ := hc.words_injective (intercalate_injective (hc.words_isWord r t)
        (hc.words_isWord r' t') h)
      rfl

theorem Catalog.builtin_legible : builtin.Legible where
  letters := by
    intro l l' h
    have hall : ∀ l ∈ Letter.all, ∀ l' ∈ Letter.all,
        (builtin.letter l).toList <+: (builtin.letter l').toList → l = l' := by decide
    exact hall l l.mem_all l' l'.mem_all h
  words := by
    intro s
    have hall : ∀ s ∈ Symbol.all, Text.IsWord (builtin.functionWord s).toList := by decide
    exact hall s s.mem_all
  distinct := by
    intro s s' h
    have hall : ∀ s ∈ Symbol.all, ∀ s' ∈ Symbol.all,
        builtin.functionWord s = builtin.functionWord s' → s = s' := by decide
    exact hall s s.mem_all s' s'.mem_all h

end WrapGen
