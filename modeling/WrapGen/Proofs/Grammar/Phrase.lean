import WrapGen.Code.Expr
import WrapGen.Proofs.Grammar.Token

/-!
# The grammar of operators

Phrases stand on levels, from loose to tight: disjunctions, conjunctions, negations,
comparisons, casts, and primaries with their attributes, calls and subscripts. Phrases of
the first two levels are chains of the next one, grouped to the left, and comparisons
take no comparison as an operand. `Derives` is that grammar, one constructor for each
rule. It leaves no choice: what can be read from tokens is read by `read?`, which goes
through them from left to right.

* `Derives.settles_read`: reading finds what the grammar derives and leaves alone what follows.
* `Derives.unique`: so tokens have one reading.
-/
namespace WrapGen.Grammar

open Code

/-! ## Levels and operators -/

/-- The levels of phrases. -/
inductive Level where
  | disjunction
  | conjunction
  | negation
  | comparison
  | cast
  | primary
  deriving DecidableEq, Repr

namespace Level

/-- The levels in order, loose ones first. -/
def rank : Level → Nat
  | disjunction => 1
  | conjunction => 2
  | negation => 3
  | comparison => 4
  | cast => 5
  | primary => 6

/-- The next tighter level. -/
def tighter : Level → Level
  | disjunction => conjunction
  | conjunction => negation
  | negation => comparison
  | comparison => cast
  | cast | primary => primary

theorem rank_tighter {l : Level} (h : l ≠ primary) : l.tighter.rank = l.rank + 1 := by
  cases l <;> first | rfl | exact absurd rfl h

theorem eq_of_rank {l m : Level} (h : l.rank = m.rank) : l = m := by
  cases l <;> cases m <;> first | rfl | cases h

end Level

/-- The level of the phrases of an operator. -/
def levelOf : BinaryOp → Level
  | .or => .disjunction
  | .and => .conjunction
  | _ => .comparison

theorem levelOf_ne_primary (op : BinaryOp) : levelOf op ≠ .primary := by
  cases op <;> decide

/-- The tokens of an operator. -/
def tokensOf : BinaryOp → List Token
  | .eq => [.equal]
  | .notEq => [.unequal]
  | .lt => [.less]
  | .and => [.and]
  | .or => [.or]
  | .isIn => [.isIn]
  | .notIn => [.not, .isIn]
  | .is => [.is]
  | .isNot => [.is, .not]

/-! ## The grammar -/

/-- The tokens of a phrase of a level, and the expression that it is. -/
inductive Derives : Level → List Token → Expr → Prop
  | tighter {l ts e} : l ≠ .primary → Derives l.tighter ts e → Derives l ts e
  | chain {l op xs ys a b} : levelOf op = l → l ≠ .comparison → Derives l xs a →
      Derives l.tighter ys b → Derives l (xs ++ (tokensOf op ++ ys)) (.binary op a b)
  | compare {op xs ys a b} : levelOf op = .comparison → Derives .cast xs a →
      Derives .cast ys b → Derives .comparison (xs ++ (tokensOf op ++ ys)) (.binary op a b)
  | not {ts e} : Derives .negation ts e → Derives .negation (.not :: ts) (.not e)
  | cast {t type ts e} : Token.word? t = some type → Derives .cast ts e →
      Derives .cast (.less :: t :: .greater :: ts) (.cast type e)
  | name {n} : Derives .primary [.name n] (.name n)
  | group {ts e} : Derives .disjunction ts e →
      Derives .primary (.opening :: (ts ++ [.closing])) e
  | attr {t n ts e} : Token.word? t = some n → Derives .primary ts e →
      Derives .primary (ts ++ [.dot, t]) (.attr e n)
  | call {ts e} {args : List (List Token × Expr)} : Derives .primary ts e →
      (∀ arg ∈ args, Derives .disjunction arg.1 arg.2) →
      Derives .primary (ts ++ .opening :: ([.comma].intercalate (args.map (·.1)) ++ [.closing]))
        (.call e (args.map (·.2)))
  | index {ts us e i} : Derives .primary ts e → Derives .disjunction us i →
      Derives .primary (ts ++ .openingBracket :: (us ++ [.closingBracket])) (.index e i)

/-! ## Reading -/

/-- The operator that continues a phrase of a level, and what is behind it. -/
def operator? : Level → List Token → Option (BinaryOp × List Token)
  | .disjunction, .or :: ts => some (.or, ts)
  | .conjunction, .and :: ts => some (.and, ts)
  | .comparison, .equal :: ts => some (.eq, ts)
  | .comparison, .unequal :: ts => some (.notEq, ts)
  | .comparison, .less :: ts => some (.lt, ts)
  | .comparison, .isIn :: ts => some (.isIn, ts)
  | .comparison, .not :: .isIn :: ts => some (.notIn, ts)
  | .comparison, .is :: .not :: ts => some (.isNot, ts)
  | .comparison, .is :: ts => some (.is, ts)
  | _, _ => none

mutual

/-- Reads a phrase of a level from the front of tokens. The number bounds the depth of
the calls; `Derives.settles_read` states that enough is enough. -/
def read? : Nat → Level → List Token → Option (Expr × List Token)
  | 0, _, _ => none
  | n + 1, .negation, .not :: ts =>
    (read? n .negation ts).bind fun p => some (.not p.1, p.2)
  | n + 1, .cast, .less :: t :: .greater :: ts =>
    t.word?.bind fun type => (read? n .cast ts).bind fun p => some (.cast type p.1, p.2)
  | n + 1, .primary, .name w :: ts => more? n .primary (.name w) ts
  | n + 1, .primary, .opening :: ts =>
    (read? n .disjunction ts).bind fun p =>
      match p.2 with
      | .closing :: ts => more? n .primary p.1 ts
      | _ => none
  | _ + 1, .primary, _ => none
  | n + 1, l, ts => (read? n l.tighter ts).bind fun p => more? n l p.1 p.2

/-- Goes on with a phrase of a level that has been read so far. -/
def more? : Nat → Level → Expr → List Token → Option (Expr × List Token)
  | 0, _, _, _ => none
  | n + 1, .primary, e, .dot :: t :: ts =>
    t.word?.bind fun w => more? n .primary (.attr e w) ts
  | n + 1, .primary, e, .opening :: ts =>
    (arguments? n ts).bind fun p => more? n .primary (.call e p.1) p.2
  | n + 1, .primary, e, .openingBracket :: ts =>
    (read? n .disjunction ts).bind fun p =>
      match p.2 with
      | .closingBracket :: ts => more? n .primary (.index e p.1) ts
      | _ => none
  | n + 1, l, e, ts =>
    match operator? l ts with
    | none => some (e, ts)
    | some (op, ts) =>
      (read? n l.tighter ts).bind fun p =>
        if l = .comparison then some (.binary op e p.1, p.2) else more? n l (.binary op e p.1) p.2

/-- Reads arguments up to the parenthesis that closes them. -/
def arguments? : Nat → List Token → Option (List Expr × List Token)
  | 0, _ => none
  | _ + 1, .closing :: ts => some ([], ts)
  | n + 1, ts => furtherArguments? n ts

/-- Reads one argument at least. -/
def furtherArguments? : Nat → List Token → Option (List Expr × List Token)
  | 0, _ => none
  | n + 1, ts =>
    (read? n .disjunction ts).bind fun p =>
      match p.2 with
      | .closing :: ts => some ([p.1], ts)
      | .comma :: ts => (furtherArguments? n ts).bind fun q => some (p.1 :: q.1, q.2)
      | _ => none

end

/-! ## Results that more depth does not change -/

/-- From some depth on the result is `r`. -/
def Settles {α : Type} (f : Nat → Option α) (r : α) : Prop := ∃ m, ∀ n, m ≤ n → f n = some r

namespace Settles

variable {α β : Type} {f : Nat → Option α} {r s : α}

theorem unique (hr : Settles f r) (hs : Settles f s) : r = s := by
  obtain ⟨m, hm⟩ := hr
  obtain ⟨k, hk⟩ := hs
  have hmax := hm (max m k) (Nat.le_max_left _ _)
  rw [hk _ (Nat.le_max_right _ _)] at hmax
  exact (Option.some.inj hmax).symm

theorem some (r : α) : Settles (fun _ => Option.some r) r := ⟨0, fun _ _ => rfl⟩

theorem succ (h : Settles (fun n => f (n + 1)) r) : Settles f r := by
  obtain ⟨m, hm⟩ := h
  refine ⟨m + 1, fun n hn => ?_⟩
  obtain ⟨n, rfl⟩ := Nat.exists_eq_add_of_le' (Nat.le_trans (Nat.le_add_left 1 m) hn)
  exact hm n (Nat.le_of_succ_le_succ hn)

theorem bind {g : Nat → α → Option β} {t : β} (hf : Settles f r)
    (hg : Settles (fun n => g n r) t) : Settles (fun n => (f n).bind (g n)) t := by
  obtain ⟨m, hm⟩ := hf
  obtain ⟨k, hk⟩ := hg
  refine ⟨max m k, fun n hn => ?_⟩
  show (f n).bind (g n) = _
  rw [hm n (Nat.le_trans (Nat.le_max_left _ _) hn)]
  exact hk n (Nat.le_trans (Nat.le_max_right _ _) hn)

end Settles

/-! ## Where phrases start and end -/

/-- Whether a phrase of a level may start with a token. -/
def starts (l : Level) : Token → Bool
  | .name _ | .opening => true
  | .less => l != .primary
  | .not => l.rank ≤ Level.negation.rank
  | _ => false

theorem starts_of_rank_le {l m : Level} (h : l.rank ≤ m.rank) {t : Token}
    (ht : starts m t = true) : starts l t = true := by
  cases t <;> first | exact ht | skip
  · exact decide_eq_true (Nat.le_trans h (of_decide_eq_true ht))
  · cases l <;> cases m <;> first | rfl | exact ht | exact absurd h (by decide)

theorem Derives.exists_start {l : Level} {ts : List Token} {e : Expr} (h : Derives l ts e) :
    ∃ t us, ts = t :: us ∧ starts l t = true := by
  induction h with
  | tighter hl _ ih =>
    obtain ⟨t, us, rfl, ht⟩ := ih
    exact ⟨t, us, rfl, starts_of_rank_le (by rw [Level.rank_tighter hl]; omega) ht⟩
  | chain _ _ _ _ ih | attr _ _ ih | call _ _ ih | index _ _ ih =>
    obtain ⟨t, us, rfl, ht⟩ := ih
    exact ⟨t, _, rfl, ht⟩
  | compare _ _ _ ih =>
    obtain ⟨t, us, rfl, ht⟩ := ih
    exact ⟨t, _, rfl, starts_of_rank_le (by decide) ht⟩
  | not | cast | name | group => exact ⟨_, _, rfl, rfl⟩

/-- Whether a phrase of a level goes on with the tokens behind it. -/
def continues : Level → List Token → Bool
  | .primary, .dot :: _ => true
  | .primary, .opening :: _ => true
  | .primary, .openingBracket :: _ => true
  | l, ts => (operator? l ts).isSome

/-- Whether tokens behind a phrase of a level leave it as it is: no tighter phrase goes
on with them, and no comparison with a comparison. -/
def Free (l : Level) (ts : List Token) : Prop :=
  ∀ m : Level, l.rank < m.rank ∨ (m = l ∧ l = .comparison) → continues m ts = false

/-- Whether no phrase goes on with tokens. -/
def Stops (ts : List Token) : Prop := ∀ m, continues m ts = false

theorem Stops.free {ts : List Token} (h : Stops ts) (l : Level) : Free l ts := fun m _ => h m

theorem stops_nil : Stops [] := fun m => by cases m <;> rfl

theorem stops_closing (ts : List Token) : Stops (.closing :: ts) := fun m => by cases m <;> rfl

theorem stops_closingBracket (ts : List Token) : Stops (.closingBracket :: ts) :=
  fun m => by cases m <;> rfl

theorem stops_comma (ts : List Token) : Stops (.comma :: ts) := fun m => by cases m <;> rfl

theorem Free.tighter {l : Level} {ts : List Token} (h : Free l ts) (hl : l ≠ .primary) :
    Free l.tighter ts ∧ continues l.tighter ts = false := by
  have hrank := Level.rank_tighter hl
  refine ⟨fun m hm => h m (.inl ?_), h _ (.inl (by omega))⟩
  rcases hm with hm | ⟨rfl, -⟩ <;> omega

/-- An operator goes on with phrases of its own level only. -/
theorem continues_tokensOf {l : Level} {op : BinaryOp} (h : levelOf op ≠ l) (ts : List Token) :
    continues l (tokensOf op ++ ts) = false := by
  cases op <;> cases l <;> first | rfl | exact absurd rfl h

/-- In front of a phrase an operator is what it is. -/
theorem operator?_tokensOf {op : BinaryOp} {t : Token}
    (ht : starts (levelOf op).tighter t = true) (ts : List Token) :
    operator? (levelOf op) (tokensOf op ++ t :: ts) = some (op, t :: ts) := by
  cases op <;> cases t <;> first | rfl | cases ht

/-! ## Reading finds what the grammar derives -/

section
variable {l : Level} {ts : List Token} {e : Expr} {r : Expr × List Token}

theorem more?_of_not_primary (hl : l ≠ .primary) (n : Nat) : more? (n + 1) l e ts =
    match operator? l ts with
    | none => some (e, ts)
    | some (op, ts) =>
      (read? n l.tighter ts).bind fun p =>
        if l = .comparison then some (.binary op e p.1, p.2)
        else more? n l (.binary op e p.1) p.2 := by
  cases l <;> first | rfl | exact absurd rfl hl

/-- A phrase that does not go on is complete. -/
theorem more?_of_not_continues (h : continues l ts = false) (n : Nat) :
    more? (n + 1) l e ts = some (e, ts) := by
  by_cases hl : l = .primary
  · subst hl
    match ts, h with
    | [], _ => rfl
    | t :: ts, h => cases t <;> first | rfl | cases h
  · have hnone : operator? l ts = none := by
      cases l <;> first | exact absurd rfl hl | simpa [continues] using h
    rw [more?_of_not_primary hl, hnone]

theorem settles_more (h : continues l ts = false) : Settles (more? · l e ts) (e, ts) := by
  refine .succ ?_
  simp only [more?_of_not_continues h]
  exact .some _

/-- What a phrase starts with that is no operator belongs to a tighter phrase. -/
theorem read?_of_starts (hl : l ≠ .primary) {t : Token} (ht : starts l.tighter t = true) (n : Nat) :
    read? (n + 1) l (t :: ts) =
      (read? n l.tighter (t :: ts)).bind fun p => more? n l p.1 p.2 := by
  cases l <;> cases t <;> first | rfl | exact absurd rfl hl | cases ht

end

theorem settles_furtherArguments {args : List (List Token × Expr)} (hne : args ≠ [])
    (h : ∀ arg ∈ args, ∀ rest, Stops rest →
      Settles (read? · .disjunction (arg.1 ++ rest)) (arg.2, rest)) (rest : List Token) :
    Settles (furtherArguments? · ([.comma].intercalate (args.map (·.1)) ++ .closing :: rest))
      (args.map (·.2), rest) := by
  induction args with
  | nil => exact absurd rfl hne
  | cons arg args ih =>
    obtain ⟨harg, hargs⟩ := List.forall_mem_cons.mp h
    refine .succ ?_
    cases args with
    | nil =>
      rw [List.map_singleton, List.intercalate_singleton]
      exact .bind (harg _ (stops_closing rest)) (.some _)
    | cons arg' args =>
      rw [List.map_cons, List.map_cons, List.intercalate_cons_cons, List.append_assoc,
        List.append_assoc]
      refine .bind (harg _ (stops_comma _)) ?_
      exact .bind (ih (List.cons_ne_nil _ _) hargs) (.some _)

theorem settles_arguments {args : List (List Token × Expr)}
    (hstart : ∀ arg ∈ args, ∃ t us, arg.1 = t :: us ∧ starts .disjunction t = true)
    (h : ∀ arg ∈ args, ∀ rest, Stops rest →
      Settles (read? · .disjunction (arg.1 ++ rest)) (arg.2, rest)) (rest : List Token) :
    Settles (arguments? · ([.comma].intercalate (args.map (·.1)) ++ .closing :: rest))
      (args.map (·.2), rest) := by
  refine .succ ?_
  cases args with
  | nil => exact .some _
  | cons arg args =>
    have hfurther := settles_furtherArguments (List.cons_ne_nil arg args) h rest
    obtain ⟨t, us, hts, ht⟩ := hstart arg List.mem_cons_self
    obtain ⟨vs, hvs⟩ : ∃ vs, [.comma].intercalate ((arg :: args).map (·.1)) = t :: vs := by
      cases args with
      | nil => exact ⟨us, by rw [List.map_singleton, List.intercalate_singleton, hts]⟩
      | cons arg' args =>
        rw [List.map_cons, List.map_cons, List.intercalate_cons_cons, hts]
        exact ⟨_, rfl⟩
    rw [hvs] at hfurther ⊢
    have hread : ∀ n, arguments? (n + 1) (t :: vs ++ .closing :: rest) =
        furtherArguments? n (t :: vs ++ .closing :: rest) := by
      intro n
      cases t <;> first | rfl | cases ht
    simpa only [hread] using hfurther

namespace Derives

variable {l : Level} {ts : List Token} {e : Expr}

/-- Reading finds what the grammar derives, and goes on behind it. -/
theorem settles_read (h : Derives l ts e) : ∀ {rest r}, Free l rest →
    Settles (more? · l e rest) r → Settles (read? · l (ts ++ rest)) r := by
  induction h with
  | tighter hl h ih =>
    intro rest r hfree hmore
    obtain ⟨hfree', hstop⟩ := hfree.tighter hl
    obtain ⟨t, us, rfl, ht⟩ := h.exists_start
    refine .succ ?_
    simp only [List.cons_append, read?_of_starts hl ht]
    exact .bind (ih hfree' (settles_more hstop)) hmore
  | chain hop hl _ hb iha ihb =>
    subst hop
    intro rest r hfree hmore
    obtain ⟨hfree', hstop⟩ := hfree.tighter (levelOf_ne_primary _)
    obtain ⟨t, us, rfl, ht⟩ := hb.exists_start
    rw [List.append_assoc, List.append_assoc]
    refine iha (fun m hm => continues_tokensOf ?_ _) (.succ ?_)
    · rintro rfl
      rcases hm with hm | ⟨-, hm⟩
      · omega
      · exact hl hm
    · simp only [List.cons_append, more?_of_not_primary (levelOf_ne_primary _),
        operator?_tokensOf ht, if_neg hl]
      exact .bind (ihb hfree' (settles_more hstop)) hmore
  | @compare op _ _ _ _ hop _ hb iha ihb =>
    intro rest r hfree hmore
    -- no further comparison is taken in, so this one is complete
    obtain rfl := hmore.unique (settles_more (hfree _ (.inr ⟨rfl, rfl⟩)))
    obtain ⟨hfree', hstop⟩ := hfree.tighter (by decide)
    obtain ⟨t, us, rfl, ht⟩ := hb.exists_start
    change starts Level.comparison.tighter t = true at ht
    have hoperand : ∀ m, Level.comparison ≠ m → ∀ ts, continues m (tokensOf op ++ ts) = false :=
      fun m hm => continues_tokensOf (hop ▸ hm)
    have hoperator : operator? .comparison (tokensOf op ++ t :: (us ++ rest)) =
        some (op, t :: (us ++ rest)) := by
      rw [← hop] at ht ⊢
      exact operator?_tokensOf ht (us ++ rest)
    rw [List.append_assoc, List.append_assoc]
    refine .succ (.bind (iha (fun m hm => hoperand m ?_ _) (settles_more ?_)) (.succ ?_))
    · rintro rfl
      rcases hm with hm | ⟨hm, -⟩
      · exact absurd hm (by decide)
      · cases hm
    · exact hoperand .cast (by decide) _
    · simp only [List.cons_append, more?_of_not_primary (l := .comparison) (by decide), hoperator]
      exact .bind (ihb hfree' (settles_more hstop)) (.some _)
  | not _ ih =>
    intro rest r hfree hmore
    obtain rfl := hmore.unique (settles_more rfl)
    exact .succ (.bind (ih hfree (settles_more rfl)) (.some _))
  | cast ht _ ih =>
    intro rest r hfree hmore
    obtain rfl := hmore.unique (settles_more rfl)
    refine .succ ?_
    simp only [List.cons_append, read?, ht, Option.bind_some]
    exact .bind (ih hfree (settles_more rfl)) (.some _)
  | name =>
    intro rest r _ hmore
    exact .succ hmore
  | group _ ih =>
    intro rest r _ hmore
    rw [List.cons_append, List.append_assoc]
    have hstop := stops_closing rest
    exact .succ (.bind (ih (hstop.free _) (settles_more (hstop _))) hmore)
  | attr ht _ ih =>
    intro rest r hfree hmore
    rw [List.append_assoc]
    refine ih ?_ (.succ ?_)
    · exact fun m hm => absurd hm (by cases m <;> decide)
    · simp only [List.cons_append, List.nil_append, more?, ht, Option.bind_some]
      exact hmore
  | call _ hargs ih ihargs =>
    intro rest r hfree hmore
    rw [List.append_assoc, List.cons_append, List.append_assoc]
    refine ih ?_ (.succ ?_)
    · exact fun m hm => absurd hm (by cases m <;> decide)
    · refine .bind (settles_arguments (fun arg harg => (hargs arg harg).exists_start) ?_ rest) hmore
      intro arg harg ts hts
      exact ihargs arg harg (hts.free _) (settles_more (hts _))
  | index _ _ ih ihi =>
    intro rest r hfree hmore
    rw [List.append_assoc, List.cons_append, List.append_assoc]
    have hstop := stops_closingBracket rest
    refine ih ?_ (.succ ?_)
    · exact fun m hm => absurd hm (by cases m <;> decide)
    · exact .bind (ihi (hstop.free _) (settles_more (hstop _))) hmore

/-- Tokens have one reading. -/
theorem unique {f : Expr} (he : Derives l ts e) (hf : Derives l ts f) : e = f := by
  have hstop := fun e => settles_more (e := e) (stops_nil l)
  have hsame := (he.settles_read (stops_nil.free l) (hstop e)).unique
    (hf.settles_read (stops_nil.free l) (hstop f))
  exact congrArg Prod.fst hsame

end Derives

end WrapGen.Grammar
