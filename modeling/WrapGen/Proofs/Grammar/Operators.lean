import Mathlib.Data.List.Forall2
import WrapGen.Code.ExprText
import WrapGen.Proofs.Grammar.Phrase

/-!
# Operators mean what the tree means

An expression of names, attributes, calls, subscripts, casts and operators is written
with as few parentheses as the grammar of the target language allows, and reading the
text gives the expression back. One thing is not written: how a chain of `and` or of
`or` is grouped (`Regrouped`).

* `Regrouped.text_eq`: grouping a chain differently does not change the text.
* `text_reads_back`: the text of an expression has one reading, and it is the
  expression but for the grouping of chains.
* `text_eq_iff`: so what two expressions share a text for is that grouping alone.
-/
namespace WrapGen.Grammar

open Code

/-! ## Expressions of operators -/

mutual

/-- Whether an expression is made of names, attributes, calls, subscripts, casts and
operators, with words for names and types. -/
def isOperation : Expr → Bool
  | .name n => isName n
  | .attr e n => isOperation e && isIdentifier n
  | .call e args => isOperation e && areOperations args
  | .index e i => isOperation e && isOperation i
  | .cast type e => isIdentifier type && isOperation e
  | .binary _ a b => isOperation a && isOperation b
  | .not e => isOperation e
  | _ => false
termination_by structural e => e

/-- Whether all expressions of a list are. -/
def areOperations : List Expr → Bool
  | [] => true
  | e :: es => isOperation e && areOperations es
termination_by structural es => es

end

/-- The expressions differ only in how their chains of `and` and of `or` are grouped. -/
inductive Regrouped : Expr → Expr → Prop
  | refl {a} : Regrouped a a
  | symm {a b} : Regrouped a b → Regrouped b a
  | trans {a b c} : Regrouped a b → Regrouped b c → Regrouped a c
  | rotate {op a b c} : op = .and ∨ op = .or →
      Regrouped (.binary op (.binary op a b) c) (.binary op a (.binary op b c))
  | left {op a a' b} : Regrouped a a' → Regrouped (.binary op a b) (.binary op a' b)
  | right {op a b b'} : Regrouped b b' → Regrouped (.binary op a b) (.binary op a b')
  | not {a b} : Regrouped a b → Regrouped (.not a) (.not b)
  | cast {type a b} : Regrouped a b → Regrouped (.cast type a) (.cast type b)
  | attr {n a b} : Regrouped a b → Regrouped (.attr a n) (.attr b n)
  | callee {args a b} : Regrouped a b → Regrouped (.call a args) (.call b args)
  | argument {e before after a b} : Regrouped a b →
      Regrouped (.call e (before ++ a :: after)) (.call e (before ++ b :: after))
  | receiver {i a b} : Regrouped a b → Regrouped (.index a i) (.index b i)
  | index {e a b} : Regrouped a b → Regrouped (.index e a) (.index e b)

/-- The readings of a text: what the grammar derives from its tokens. -/
def Reads (s : String) (e : Expr) : Prop :=
  ∃ ts, tokens? s.toList = some ts ∧ Derives .disjunction ts e

namespace Regrouped

variable {a a' b b' e e' : Expr}

theorem binary {op : BinaryOp} (ha : Regrouped a a') (hb : Regrouped b b') :
    Regrouped (.binary op a b) (.binary op a' b') :=
  .trans (.left ha) (.right hb)

theorem arguments {xs ys : List Expr} (h : List.Forall₂ Regrouped xs ys) (before : List Expr) :
    Regrouped (.call e (before ++ xs)) (.call e (before ++ ys)) := by
  induction h generalizing before with
  | nil => exact .refl
  | @cons x y xs ys hxy _ ih =>
    refine .trans (.argument hxy) ?_
    have hrest := ih (before ++ [y])
    rwa [List.append_assoc, List.append_assoc] at hrest

theorem call {xs ys : List Expr} (he : Regrouped e e') (h : List.Forall₂ Regrouped xs ys) :
    Regrouped (.call e xs) (.call e' ys) :=
  .trans (.callee he) (arguments h [])

theorem texts_append : ∀ xs ys : List Expr,
    Expr.texts (xs ++ ys) = Expr.texts xs ++ Expr.texts ys
  | [], _ => rfl
  | x :: xs, ys => by rw [List.cons_append, Expr.texts, Expr.texts, texts_append xs ys]; rfl

theorem operandText_congr (ht : a.text = b.text) (hp : a.precedence = b.precedence)
    (least : Precedence) :
    Expr.operandText least a a.text = Expr.operandText least b b.text := by
  rw [Expr.operandText, Expr.operandText, ht, hp]

/-- How chains are grouped is not written. -/
theorem text_eq (h : Regrouped a b) : a.text = b.text ∧ a.precedence = b.precedence := by
  induction h with
  | refl => exact ⟨rfl, rfl⟩
  | symm _ ih => exact ⟨ih.1.symm, ih.2.symm⟩
  | trans _ _ ih ih' => exact ⟨ih.1.trans ih'.1, ih.2.trans ih'.2⟩
  | rotate hop =>
    rcases hop with rfl | rfl <;>
      simp [Expr.text, Expr.operandText, Expr.precedence, BinaryOp.operand, BinaryOp.precedence,
        String.append_assoc]
  | left _ ih | right _ ih | not _ ih | cast _ ih | attr _ ih | callee _ ih | receiver _ ih =>
    refine ⟨?_, rfl⟩
    simp only [Expr.text, operandText_congr ih.1 ih.2]
  | index _ ih =>
    refine ⟨?_, rfl⟩
    simp only [Expr.text, ih.1]
  | argument _ ih =>
    refine ⟨?_, rfl⟩
    simp only [Expr.text, texts_append, Expr.texts, ih.1]

end Regrouped

/-! ## Texts and what they are written for -/

/-- The level that an expression is written on. -/
def levelOfExpr : Expr → Level
  | .binary op _ _ => levelOf op
  | .not _ => .negation
  | .cast _ _ | .alloc _ => .cast
  | _ => .primary

theorem precedence_eq_rank (e : Expr) : e.precedence = (levelOfExpr e).rank := by
  cases e <;> try rfl
  rename_i op a b
  cases op <;> rfl

/-- The text is a phrase of a level, and the phrase is the expression but for the
grouping of chains. -/
def Written (l : Level) (s : String) (e : Expr) : Prop :=
  ∃ ts t, SpellsApart s ts ∧ Derives l ts t ∧ Regrouped t e

theorem Derives.looser {l m : Level} {ts : List Token} {e : Expr} (h : Derives m ts e)
    (hlm : l.rank ≤ m.rank) : Derives l ts e := by
  obtain ⟨k, hk⟩ := Nat.exists_eq_add_of_le hlm
  induction k generalizing l with
  | zero => exact Level.eq_of_rank hk ▸ h
  | succ k ih =>
    have hl : l ≠ .primary := by
      rintro rfl
      have : m.rank ≤ 6 := by cases m <;> decide
      have : Level.primary.rank = 6 := rfl
      omega
    have hrank := Level.rank_tighter hl
    exact .tighter hl (ih (by omega) (by omega))

theorem connective_of_ne {op : BinaryOp} (h : levelOf op ≠ .comparison) :
    op = .and ∨ op = .or := by
  cases op <;> first | exact .inl rfl | exact .inr rfl | exact absurd rfl h

/-- A chain goes on at its end, however the part that is put there is grouped. -/
theorem Derives.exists_chain {l : Level} {op : BinaryOp} {xs ys : List Token} {a b : Expr}
    (hop : levelOf op = l) (hl : l ≠ .comparison) (ha : Derives l xs a) (hb : Derives l ys b) :
    ∃ t, Derives l (xs ++ (tokensOf op ++ ys)) t ∧ Regrouped t (.binary op a b) := by
  have hconnective := connective_of_ne (hop ▸ hl)
  induction hb with
  | tighter _ hb => exact ⟨_, .chain hop hl ha hb, .refl⟩
  | @chain _ op' ys zs b c hop' _ _ hc ih =>
    -- there is one operator for chains of a level
    obtain rfl : op' = op := by
      subst hop
      rcases hconnective with rfl | rfl <;>
        rcases connective_of_ne (hop' ▸ hl) with rfl | rfl <;> first | rfl | cases hop'
    obtain ⟨t, ht, hr⟩ := ih hop hl ha
    refine ⟨.binary op' t c, ?_, .trans (.left hr) (.rotate hconnective)⟩
    simpa using Derives.chain hop hl ht hc
  | compare => exact absurd rfl hl
  | not | cast | name | group | attr | call | index => cases op <;> cases hop

namespace Written

variable {l m : Level} {s t n type : String} {a b e i : Expr}

theorem looser (h : Written m s e) (hlm : l.rank ≤ m.rank) : Written l s e := by
  obtain ⟨ts, t, hs, hd, hr⟩ := h
  exact ⟨ts, t, hs, hd.looser hlm, hr⟩

/-- Whatever is written between parentheses may stand anywhere. -/
theorem group (h : Written .disjunction s e) : Written .primary ("(" ++ s ++ ")") e := by
  obtain ⟨ts, t, hs, hd, hr⟩ := h
  have hspells := (spells_opening.append_apart hs).append spells_closing (by decide) (by decide)
  exact ⟨_, t, hspells.apart, .group hd, hr⟩

/-- An operand gets parentheses exactly when it is looser than its place allows. -/
theorem operand (h : Written (levelOfExpr e) e.text e) (l : Level) :
    Written l (Expr.operandText l.rank e e.text) e := by
  unfold Expr.operandText
  rw [precedence_eq_rank]
  split
  · exact (h.looser (by cases levelOfExpr e <;> decide)).group.looser (by cases l <;> decide)
  · rename_i hlt
    exact h.looser (Nat.le_of_not_lt hlt)

theorem attr (hn : isIdentifier n = true) (h : Written .primary s e) :
    Written .primary (s ++ "." ++ n) (.attr e n) := by
  obtain ⟨ts, t, hs, hd, hr⟩ := h
  have hspells := (hs.append spells_dot (by decide) (by decide)).append_apart (spellsApart_word hn)
  rw [List.append_assoc] at hspells
  exact ⟨_, _, hspells, .attr (Token.word?_ofWord n) hd, .attr hr⟩

theorem index (h : Written .primary s e) (hi : Written .disjunction t i) :
    Written .primary (s ++ "[" ++ t ++ "]") (.index e i) := by
  obtain ⟨ts, e', hs, hd, hr⟩ := h
  obtain ⟨us, i', ht, hdi, hri⟩ := hi
  have hspells := ((hs.append spells_openingBracket (by decide) (by decide)).append_apart
    ht).append spells_closingBracket (by decide) (by decide)
  simp only [List.append_assoc, List.cons_append, List.nil_append] at hspells
  exact ⟨_, _, hspells.apart, .index hd hdi, .trans (.receiver hr) (.index hri)⟩

theorem not (h : Written .negation s e) : Written .negation ("not " ++ s) (.not e) := by
  obtain ⟨ts, t, hs, hd, hr⟩ := h
  have hnot : Spells "not " [.not] := spells_word_space (w := "not") (by decide)
  exact ⟨_, _, hnot.append_apart hs, .not hd, .not hr⟩

theorem cast (ht : isIdentifier type = true) (h : Written .cast s e) :
    Written .cast ("<" ++ type ++ "> " ++ s) (.cast type e) := by
  obtain ⟨ts, t, hs, hd, hr⟩ := h
  have hspells := ((spellsApart_less_word ht).append spells_greater (by decide)
    (by decide)).append_apart hs
  exact ⟨_, _, hspells, .cast (Token.word?_ofWord type) hd, .cast hr⟩

theorem spells_operator (op : BinaryOp) : Spells (" " ++ op.symbol ++ " ") (tokensOf op) := by
  suffices hop : Spells (op.symbol ++ " ") (tokensOf op) by
    rw [String.append_assoc]
    exact spells_space.append hop
  have hword : ∀ w : String, isIdentifier w = true → Spells (w ++ " ") [.ofWord w] :=
    fun _ => spells_word_space
  have hmark : ∀ (m : String) (t : Token), (∀ cs, tokens? (m.toList ++ ' ' :: cs) =
      (tokens? (' ' :: cs)).map (t :: ·)) → Spells (m ++ " ") [t] := by
    intro m t h rest
    rw [String.toList_append, List.append_assoc]
    exact (h rest).trans (congrArg _ (tokens?_space rest))
  cases op with
  | and => exact hword "and" (by decide)
  | or => exact hword "or" (by decide)
  | isIn => exact hword "in" (by decide)
  | is => exact hword "is" (by decide)
  | notIn =>
    rw [show BinaryOp.notIn.symbol = "not" ++ " " ++ "in" from rfl, String.append_assoc]
    exact (hword "not" (by decide)).append (hword "in" (by decide))
  | isNot =>
    rw [show BinaryOp.isNot.symbol = "is" ++ " " ++ "not" from rfl, String.append_assoc]
    exact (hword "is" (by decide)).append (hword "not" (by decide))
  | eq => exact hmark "==" .equal fun cs => tokens?_equal _
  | notEq => exact hmark "!=" .unequal fun cs => tokens?_unequal _
  | lt => exact hmark "<" .less fun cs => tokens?_mark rfl rfl

/-- An operator between phrases: of its own level for a chain, tighter ones otherwise. -/
theorem binary (op : BinaryOp) (ha : Written (levelOfExpr a) a.text a)
    (hb : Written (levelOfExpr b) b.text b) :
    Written (levelOf op) (Expr.operandText op.operand a a.text ++ " " ++ op.symbol ++ " " ++
      Expr.operandText op.operand b b.text) (.binary op a b) := by
  obtain ⟨l, hl, hplace⟩ : ∃ l : Level, op.operand = l.rank ∧
      (l = levelOf op ∧ l ≠ .comparison ∨ l = .cast ∧ levelOf op = .comparison) := by
    cases op <;> first
      | exact ⟨.disjunction, rfl, .inl ⟨rfl, by decide⟩⟩
      | exact ⟨.conjunction, rfl, .inl ⟨rfl, by decide⟩⟩
      | exact ⟨.cast, rfl, .inr ⟨rfl, rfl⟩⟩
  rw [hl]
  obtain ⟨xs, a', hs, hda, hra⟩ := ha.operand l
  obtain ⟨ys, b', ht, hdb, hrb⟩ := hb.operand l
  have hspells := (hs.append (spells_operator op) (by cases op <;> decide)
    (by cases op <;> decide)).append_apart ht
  simp only [List.append_assoc, String.append_assoc] at hspells ⊢
  rcases hplace with ⟨rfl, hne⟩ | ⟨rfl, hop⟩
  · obtain ⟨t, hd, hr⟩ := hda.exists_chain rfl hne hdb
    exact ⟨_, t, hspells, hd, .trans hr (.binary hra hrb)⟩
  · exact ⟨_, _, hspells, hop ▸ .compare hop hda hdb, .binary hra hrb⟩

theorem exists_arguments : ∀ {es : List Expr}, (∀ e ∈ es, Written .disjunction e.text e) →
    ∃ args : List (List Token × Expr), (∀ arg ∈ args, Derives .disjunction arg.1 arg.2) ∧
      SpellsApart (", ".intercalate (Expr.texts es)) ([.comma].intercalate (args.map (·.1))) ∧
      List.Forall₂ Regrouped (args.map (·.2)) es
  | [], _ => ⟨[], List.forall_mem_nil _, fun rest _ => by simp [Expr.texts], .nil⟩
  | [e], h => by
    obtain ⟨ts, t, hs, hd, hr⟩ := h e List.mem_cons_self
    refine ⟨[(ts, t)], by simpa using hd, ?_, .cons hr .nil⟩
    rwa [Expr.texts, Expr.texts, String.intercalate_singleton, List.map_singleton,
      List.intercalate_singleton]
  | e :: e' :: es, h => by
    obtain ⟨he, hes⟩ := List.forall_mem_cons.mp h
    obtain ⟨ts, t, hs, hd, hr⟩ := he
    obtain ⟨args, hargs, hspells, hrs⟩ := exists_arguments hes
    refine ⟨(ts, t) :: args, List.forall_mem_cons.mpr ⟨hd, hargs⟩, ?_, .cons hr hrs⟩
    cases args with
    | nil => cases hrs
    | cons arg args =>
      rw [Expr.texts, Expr.texts, String.intercalate_cons_cons, List.map_cons, List.map_cons,
        List.intercalate_cons_cons]
      exact (hs.append spells_comma (by decide) (by decide)).append_apart hspells

theorem call {es : List Expr} (h : Written .primary s e)
    (hes : ∀ e ∈ es, Written .disjunction e.text e) :
    Written .primary (s ++ "(" ++ ", ".intercalate (Expr.texts es) ++ ")") (.call e es) := by
  obtain ⟨ts, t, hs, hd, hr⟩ := h
  obtain ⟨args, hargs, hspells, hrs⟩ := exists_arguments hes
  have hspells := ((hs.append spells_opening (by decide) (by decide)).append_apart
    hspells).append spells_closing (by decide) (by decide)
  simp only [List.append_assoc, List.cons_append, List.nil_append] at hspells
  exact ⟨_, _, hspells.apart, .call hd hargs, hr.call hrs⟩

end Written

mutual

/-- The text of an expression of operators is a phrase of its level. -/
theorem written_text : ∀ e : Expr, isOperation e = true → Written (levelOfExpr e) e.text e
  | .name n, h => by
    obtain ⟨hn, hword⟩ := Bool.and_eq_true_iff.mp h
    have hspells := spellsApart_word hn
    rw [eq_of_beq hword] at hspells
    exact ⟨_, _, hspells, .name, .refl⟩
  | .attr e n, h => by
    obtain ⟨he, hn⟩ := Bool.and_eq_true_iff.mp h
    exact ((written_text e he).operand .primary).attr hn
  | .call e args, h => by
    obtain ⟨he, hargs⟩ := Bool.and_eq_true_iff.mp h
    exact ((written_text e he).operand .primary).call (written_texts args hargs)
  | .index e i, h => by
    obtain ⟨he, hi⟩ := Bool.and_eq_true_iff.mp h
    refine ((written_text e he).operand .primary).index ?_
    exact (written_text i hi).looser (by cases levelOfExpr i <;> decide)
  | .cast type e, h => by
    obtain ⟨ht, he⟩ := Bool.and_eq_true_iff.mp h
    exact ((written_text e he).operand .cast).cast ht
  | .binary op a b, h => by
    obtain ⟨ha, hb⟩ := Bool.and_eq_true_iff.mp h
    exact .binary op (written_text a ha) (written_text b hb)
  | .not e, h => ((written_text e h).operand .negation).not

theorem written_texts : ∀ es : List Expr, areOperations es = true →
    ∀ e ∈ es, Written .disjunction e.text e
  | [], _ => List.forall_mem_nil _
  | e :: es, h => by
    obtain ⟨he, hes⟩ := Bool.and_eq_true_iff.mp h
    refine List.forall_mem_cons.mpr ⟨?_, written_texts es hes⟩
    exact (written_text e he).looser (by cases levelOfExpr e <;> decide)

end

theorem written_disjunction (e : Expr) (h : isOperation e = true) :
    Written .disjunction e.text e :=
  (written_text e h).looser (by cases levelOfExpr e <;> decide)

/-- Two expressions of operators have one text when they differ in the grouping of their
chains, and only then. -/
theorem text_eq_iff {a b : Expr} (ha : isOperation a = true) (hb : isOperation b = true) :
    a.text = b.text ↔ Regrouped a b := by
  refine ⟨fun h => ?_, fun h => h.text_eq.1⟩
  obtain ⟨ts, t, hts, ht, hta⟩ := written_disjunction a ha
  obtain ⟨us, u, hus, hu, hub⟩ := written_disjunction b hb
  have htokens : ts = us :=
    Option.some.inj (hts.tokens?_eq.symm.trans (h ▸ hus.tokens?_eq))
  obtain rfl : t = u := ht.unique (htokens ▸ hu)
  exact hta.symm.trans hub

/-- The text of an expression of operators has one reading, and that is the expression
but for the grouping of its chains. -/
theorem text_reads_back (e : Expr) (h : isOperation e = true) :
    ∃ t, Regrouped t e ∧ ∀ u, Reads e.text u ↔ u = t := by
  obtain ⟨ts, t, hspells, hd, hr⟩ := written_disjunction e h
  refine ⟨t, hr, fun u => ⟨?_, ?_⟩⟩
  · rintro ⟨us, hus, hu⟩
    rw [hspells.tokens?_eq] at hus
    exact (Option.some.inj hus ▸ hu).unique hd
  · rintro rfl
    exact ⟨ts, hspells.tokens?_eq, hd⟩

/-- A comparison of comparisons, a chain grouped to the right below `not`, and casts and
`not` where something tighter is needed. -/
theorem text_reads_back_nested :
    let chain := Expr.binary .and (.name "a") (.binary .and (.name "b") (.binary .or (.name "c")
      (.name "d")))
    let comparison := Expr.binary .notIn (.binary .isNot (.name "a") (.name "b"))
      (.cast "T" (.attr (.cast "U" (.name "c")) "field"))
    let e := Expr.index (.call (.not (.name "f")) [.not chain, comparison]) chain
    isOperation e = true ∧ ∃ t, Regrouped t e ∧ ∀ u, Reads e.text u ↔ u = t :=
  ⟨by decide +kernel, text_reads_back _ (by decide +kernel)⟩

end WrapGen.Grammar
