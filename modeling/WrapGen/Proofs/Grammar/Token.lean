import WrapGen.Text.Blank

/-!
# Tokens of the target language

The tokens that expressions of names, calls, casts and operators are made of. A word
is a longest run of letters, digits and underscores; five of them are operators. Marks
are taken as long as they can be too, and spaces only set tokens apart.

`Spells` says that a text stands for tokens wherever it occurs, and `SpellsApart` that
it does unless a word runs on behind it. Both hold of texts that are put together from
such texts, so nothing else is needed to cut what a printer writes.
-/
namespace WrapGen.Grammar

open Text

/-! ## Tokens -/

/-- Whether a character may stand in a word. Beyond ASCII every character is taken
that is neither white space nor a control character. -/
def isWordChar (c : Char) : Bool :=
  c.isAlphanum || c == '_' || (0x7F < c.toNat && !isBlank c && !isControl c)

/-- Whether a word starts like a name and not like a number. -/
def isIdentifier (w : String) : Bool :=
  w.toList.all isWordChar && w.toList.head?.any (!·.isDigit)

/-- A token. -/
inductive Token where
  | name (n : String)
  | and
  | or
  | not
  | isIn
  | is
  | dot
  | comma
  | opening
  | closing
  | openingBracket
  | closingBracket
  | less
  | greater
  | equal
  | unequal
  deriving DecidableEq, Repr

namespace Token

/-- The token of a word. -/
def ofWord : String → Token
  | "and" => and
  | "or" => or
  | "not" => not
  | "in" => isIn
  | "is" => is
  | w => name w

/-- The word of a token. -/
def word? : Token → Option String
  | name n => some n
  | and => some "and"
  | or => some "or"
  | not => some "not"
  | isIn => some "in"
  | is => some "is"
  | _ => none

theorem word?_ofWord (w : String) : (ofWord w).word? = some w := by
  unfold ofWord
  split <;> rfl

/-- The token of a mark of one character, when the character `next` follows. Before
some of them it is the start of an operator that these expressions do not have. -/
def ofMark? (c : Char) (next : Option Char) : Option Token :=
  match c with
  | '.' => some dot
  | ',' => some comma
  | '(' => some opening
  | ')' => some closing
  | '[' => some openingBracket
  | ']' => some closingBracket
  | '<' => if next ∈ [some '<', some '=', some '>'] then none else some less
  | '>' => if next ∈ [some '=', some '>'] then none else some greater
  | _ => none

end Token

/-- Whether a word is a name and no operator. -/
def isName (w : String) : Bool := isIdentifier w && Token.ofWord w == .name w

/-! ## Cutting a text -/

/-- Puts the word `w` in front of tokens, unless it is empty. -/
def consWord? (w : List Char) (ts : List Token) : Option (List Token) :=
  if w.isEmpty then some ts
  else if isIdentifier (String.ofList w) then some (.ofWord (String.ofList w) :: ts)
  else none

/-- The tokens of a text behind the start `w` of a word. -/
def tokensAfter? : List Char → List Char → Option (List Token)
  | w, [] => consWord? w []
  | w, c :: cs =>
    if isWordChar c then tokensAfter? (w ++ [c]) cs
    else
      Option.bind
        (match c, cs with
        | ' ', cs => tokensAfter? [] cs
        | '=', '=' :: cs => (tokensAfter? [] cs).map (.equal :: ·)
        | '!', '=' :: cs => (tokensAfter? [] cs).map (.unequal :: ·)
        | c, cs =>
          (Token.ofMark? c cs.head?).bind fun t => (tokensAfter? [] cs).map (t :: ·))
        fun ts => consWord? w ts

/-- The tokens of a text. -/
def tokens? (cs : List Char) : Option (List Token) := tokensAfter? [] cs

example : tokens? "not a_1.b<T>".toList = some [.not, .name "a_1", .dot, .name "b", .less,
    .name "T", .greater] ∧ tokens? "a<<b".toList = none ∧ tokens? "1".toList = none := by
  decide +kernel

/-- Whether no word runs on at the start of a text. -/
def Apart (cs : List Char) : Prop := cs.head?.all (!isWordChar ·) = true

instance : DecidablePred Apart := fun _ => inferInstanceAs (Decidable (_ = true))

theorem Apart.append {cs : List Char} (h : Apart cs) (hne : cs ≠ []) (ds : List Char) :
    Apart (cs ++ ds) := by
  obtain ⟨c, cs, rfl⟩ := List.exists_cons_of_ne_nil hne
  exact h

/-- A word that ends where the text goes on stands in front of the tokens of the rest. -/
theorem tokensAfter?_of_apart (w : List Char) {cs : List Char} (h : Apart cs) :
    tokensAfter? w cs = (tokens? cs).bind (consWord? w) := by
  cases cs with
  | nil => rfl
  | cons c cs =>
    have hc : isWordChar c = false := by simpa [Apart] using h
    have hempty : consWord? [] = some := rfl
    unfold tokens? tokensAfter?
    rw [if_neg (by simp [hc]), if_neg (by simp [hc]), hempty,
      Option.bind_fun_some]

/-- The characters of a word are taken one by one. -/
theorem tokensAfter?_word {v : List Char} (hv : ∀ c ∈ v, isWordChar c = true) (w cs : List Char) :
    tokensAfter? w (v ++ cs) = tokensAfter? (w ++ v) cs := by
  induction v generalizing w with
  | nil => simp
  | cons c v ih =>
    obtain ⟨hc, hv⟩ := List.forall_mem_cons.mp hv
    calc tokensAfter? w (c :: (v ++ cs)) = tokensAfter? (w ++ [c]) (v ++ cs) := by
          rw [tokensAfter?.eq_def]
          exact if_pos hc
      _ = tokensAfter? (w ++ c :: v) cs := by
          rw [ih hv, List.append_assoc, List.singleton_append]

section
variable {c : Char} {t : Token} (cs : List Char)

theorem tokens?_space : tokens? (' ' :: cs) = tokens? cs := Option.bind_fun_some _

theorem tokens?_equal : tokens? ('=' :: '=' :: cs) = (tokens? cs).map (.equal :: ·) :=
  Option.bind_fun_some _

theorem tokens?_unequal : tokens? ('!' :: '=' :: cs) = (tokens? cs).map (.unequal :: ·) :=
  Option.bind_fun_some _

theorem tokens?_mark {cs : List Char} (hc : isWordChar c = false)
    (h : Token.ofMark? c cs.head? = some t) : tokens? (c :: cs) = (tokens? cs).map (t :: ·) := by
  rw [tokens?, tokensAfter?.eq_def]
  dsimp only
  rw [if_neg (by simp [hc]), show consWord? [] = some from rfl, Option.bind_fun_some]
  split
  · cases h
  · cases h
  · cases h
  · rw [h, Option.bind_some]
    rfl

end

/-! ## Texts that stand for tokens -/

/-- A text stands for tokens, whatever follows. -/
def Spells (s : String) (ts : List Token) : Prop :=
  ∀ rest, tokens? (s.toList ++ rest) = (tokens? rest).map (ts ++ ·)

/-- A text stands for tokens unless a word runs on behind it. -/
def SpellsApart (s : String) (ts : List Token) : Prop :=
  ∀ rest, Apart rest → tokens? (s.toList ++ rest) = (tokens? rest).map (ts ++ ·)

section
variable {s t : String} {ts us : List Token}

theorem Spells.apart (h : Spells s ts) : SpellsApart s ts := fun rest _ => h rest

theorem Spells.append (hs : Spells s ts) (ht : Spells t us) : Spells (s ++ t) (ts ++ us) := by
  intro rest
  rw [String.toList_append, List.append_assoc, hs, ht, Option.map_map]
  simp [Function.comp_def]

theorem Spells.append_apart (hs : Spells s ts) (ht : SpellsApart t us) :
    SpellsApart (s ++ t) (ts ++ us) := by
  intro rest hrest
  rw [String.toList_append, List.append_assoc, hs, ht rest hrest, Option.map_map]
  simp [Function.comp_def]

/-- What does not go on with a word may follow a word. -/
theorem SpellsApart.append (hs : SpellsApart s ts) (ht : Spells t us) (ha : Apart t.toList)
    (hne : t.toList ≠ []) : Spells (s ++ t) (ts ++ us) := by
  intro rest
  rw [String.toList_append, List.append_assoc, hs _ (ha.append hne rest), ht, Option.map_map]
  simp [Function.comp_def]

theorem SpellsApart.append_apart (hs : SpellsApart s ts) (ht : SpellsApart t us)
    (ha : Apart t.toList) (hne : t.toList ≠ []) : SpellsApart (s ++ t) (ts ++ us) := by
  intro rest hrest
  rw [String.toList_append, List.append_assoc, hs _ (ha.append hne rest), ht rest hrest,
    Option.map_map]
  simp [Function.comp_def]

/-- A text that stands for tokens is cut into them. -/
theorem SpellsApart.tokens?_eq (h : SpellsApart s ts) : tokens? s.toList = some ts := by
  have hnil := h [] (by simp [Apart])
  rw [List.append_nil] at hnil
  rw [hnil]
  simp [tokens?, tokensAfter?, consWord?]

end

/-- A word stands for its token. -/
theorem spellsApart_word {w : String} (h : isIdentifier w = true) :
    SpellsApart w [.ofWord w] := by
  intro rest hrest
  obtain ⟨hall, hhead⟩ := Bool.and_eq_true_iff.mp h
  have hne : w.toList ≠ [] := by
    intro hnil
    rw [hnil] at hhead
    cases hhead
  have hword : ∀ ts, consWord? w.toList ts = some (.ofWord w :: ts) := by
    intro ts
    simp [consWord?, hne, h]
  rw [tokens?, tokensAfter?_word (List.all_eq_true.mp hall), List.nil_append,
    tokensAfter?_of_apart _ hrest, funext hword]
  cases tokens? rest <;> rfl

theorem spells_space : Spells " " [] := fun rest => (tokens?_space rest).trans (by simp)

/-- A word and the space behind it. -/
theorem spells_word_space {w : String} (h : isIdentifier w = true) :
    Spells (w ++ " ") [.ofWord w] := by
  have hspells := (spellsApart_word h).append spells_space (by decide) (by decide)
  rwa [List.append_nil] at hspells

/-- A mark that is no start of another one. -/
theorem spells_mark {s : String} {c : Char} {t : Token} (hs : s.toList = [c])
    (hc : isWordChar c = false) (h : ∀ next, Token.ofMark? c next = some t) : Spells s [t] := by
  intro rest
  rw [hs, List.singleton_append, tokens?_mark hc (h _)]
  rfl

theorem spells_opening : Spells "(" [.opening] := spells_mark rfl rfl fun _ => rfl

theorem spells_closing : Spells ")" [.closing] := spells_mark rfl rfl fun _ => rfl

theorem spells_openingBracket : Spells "[" [.openingBracket] := spells_mark rfl rfl fun _ => rfl

theorem spells_closingBracket : Spells "]" [.closingBracket] := spells_mark rfl rfl fun _ => rfl

theorem spells_dot : Spells "." [.dot] := spells_mark rfl rfl fun _ => rfl

theorem spells_comma : Spells ", " [.comma] := by
  intro rest
  show tokens? (',' :: ' ' :: rest) = _
  rw [tokens?_mark rfl rfl, tokens?_space]
  rfl

/-- The mark that opens a cast, and the word behind it. -/
theorem spellsApart_less_word {w : String} (h : isIdentifier w = true) :
    SpellsApart ("<" ++ w) [.less, .ofWord w] := by
  intro rest hrest
  obtain ⟨hall, hhead⟩ := Bool.and_eq_true_iff.mp h
  obtain ⟨c, cs, hw⟩ : ∃ c cs, w.toList = c :: cs := by
    refine List.exists_cons_of_ne_nil fun hnil => ?_
    rw [hnil] at hhead
    cases hhead
  have hc : isWordChar c = true := List.all_eq_true.mp hall c (hw ▸ List.mem_cons_self)
  have hless : Token.ofMark? '<' (w.toList ++ rest).head? = some .less := by
    rw [hw]
    refine if_neg fun hm => ?_
    simp only [List.cons_append, List.head?_cons, List.mem_cons, Option.some.injEq,
      List.not_mem_nil, or_false] at hm
    rcases hm with rfl | rfl | rfl <;> cases hc
  rw [String.toList_append, List.append_assoc]
  show tokens? ('<' :: (w.toList ++ rest)) = _
  rw [tokens?_mark rfl hless, spellsApart_word h rest hrest, Option.map_map]
  rfl

theorem spells_greater : Spells "> " [.greater] := by
  intro rest
  show tokens? ('>' :: ' ' :: rest) = _
  rw [tokens?_mark rfl rfl, tokens?_space]
  rfl

end WrapGen.Grammar
