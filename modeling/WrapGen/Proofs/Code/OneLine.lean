import WrapGen.Code.ExprText
import WrapGen.Proofs.Text.Blocks

/-!
# Expressions in a line

What is written of an expression stands in one line. A literal keeps to that line
whatever it holds: text is quoted, and numbers are digits, points and signs. So an
expression does if its names and types do (`Expr.solid`), and it may stand first in
a line if the name it starts with may (`Expr.leads`).

* `Literal.isSafe_text`, `Expr.isSafe_text`: the text keeps to its line.
* `Expr.isSolid_text`: an expression may be a line of its own.
-/
namespace WrapGen.Code

open Text Decimal Binary

/-! ## Numbers and quoted text -/

theorem isInline_of_isDigit {c : Char} (h : c.isDigit = true) : isInline c = true := by
  have hrange : 48 ≤ c.toNat ∧ c.toNat ≤ 57 := by
    simpa [Char.isDigit, Char.le_def, UInt32.le_iff_toNat_le] using h
  have hne : c ≠ ':' := by
    rintro rfl
    exact absurd hrange.2 (by decide)
  simp [isInline, isControl, hne]
  omega

theorem inline_toDigits (n : Nat) : (Nat.toDigits 10 n).all isInline = true :=
  List.all_eq_true.mpr fun _ hc =>
    isInline_of_isDigit (Nat.isDigit_of_mem_toDigits (by decide) (by decide) hc)

theorem inline_toString (n : Int) : (toString n).toList.all isInline = true := by
  cases n with
  | ofNat n =>
    show (Nat.repr n).toList.all isInline = true
    rw [Nat.toList_repr, inline_toDigits]
  | negSucc n =>
    show ("-" ++ Nat.repr (n + 1)).toList.all isInline = true
    rw [String.toList_append, Nat.toList_repr, List.all_append, inline_toDigits]
    rfl

theorem inline_positional {digits : List Char} (h : digits.all isInline = true) (point : Int) :
    (positional digits point).all isInline = true := by
  have hall := List.all_eq_true.mp h
  have hzero (n : Nat) : (List.replicate n '0').all isInline = true := by
    simp [List.all_replicate, show isInline '0' = true from rfl]
  unfold positional
  split
  · simp only [List.all_cons, List.all_append, h, hzero]
    rfl
  · split
    · simp only [List.all_append, h, hzero]
      rfl
    · simp only [List.all_append, List.all_cons]
      rw [List.all_eq_true.mpr fun c hc => hall c (List.mem_of_mem_take hc),
        List.all_eq_true.mpr fun c hc => hall c (List.mem_of_mem_drop hc)]
      rfl

theorem inline_scientific {digits : List Char} (h : digits.all isInline = true) (exponent : Int) :
    (scientific digits exponent).all isInline = true := by
  unfold scientific
  simp only [List.all_append, List.all_cons, inline_toString]
  split
  · simp_all [show isInline '.' = true from rfl, show isInline 'e' = true from rfl]
  · rw [h]
    rfl

theorem inline_write (l : Layout) (d : Decimal) : (write l d).all isInline = true := by
  unfold write
  dsimp only
  split
  · exact inline_positional (inline_toDigits _) _
  · exact inline_scientific (inline_toDigits _) _

theorem isSafe_layout {f : Format} (x : Word f) : isSafe (Layout.standard.text x) = true := by
  have hmagnitude : (writeMagnitude Layout.standard x).all isInline = true := by
    unfold writeMagnitude
    split
    · rfl
    · exact inline_write _ _
  unfold Layout.text
  split
  · decide
  · dsimp only
    have hsign : isSafe (if x.isNegative then "-" else "") = true := by split <;> decide
    split
    · exact isSafe_append hsign (by decide)
    · exact isSafe_append hsign (isSafe_of_all (by rw [String.toList_ofList, hmagnitude]))

theorem isSafe_floatText (x : Double) : isSafe (floatText x) = true := by
  unfold floatText
  split
  · decide
  · split
    · split <;> decide
    · exact isSafe_layout x

theorem isSafe_complexText (re im : Double) : isSafe (complexText re im) = true := by
  unfold complexText
  split
  · exact isSafe_append (isSafe_floatText im) (by decide)
  · have hsign : isSafe (if im.isNegative then "-" else "+") = true := by split <;> decide
    refine isSafe_append (isSafe_append (isSafe_append (isSafe_append ?_ ?_) hsign) ?_) ?_
    · decide
    · exact isSafe_floatText re
    · exact isSafe_floatText im.abs
    · decide

/-- No control character is left in a quoted text. -/
theorem isControl_escape {c d : Char} (h : d ∈ escape c) : isControl d = false := by
  have hdigit : ∀ n < 16, isControl (Nat.digitChar n) = false := by decide
  unfold escape at h
  split at h
  all_goals try (simp at h; rcases h with rfl | rfl <;> rfl)
  split at h
  · simp only [hexPair, List.mem_cons, List.not_mem_nil, or_false] at h
    rcases h with rfl | rfl | rfl | rfl
    · rfl
    · rfl
    · exact hdigit _ (Nat.mod_lt _ (by decide))
    · exact hdigit _ (Nat.mod_lt _ (by decide))
  · simp_all

theorem isSafe_quote (s : String) : isSafe (quote s) = true := by
  rw [isSafe_iff, quote, String.toList_ofList, quoteChars]
  constructor
  · intro c hc
    simp only [List.mem_cons, List.mem_append, List.mem_flatMap, List.not_mem_nil,
      or_false] at hc
    rcases hc with rfl | ⟨d, -, hc⟩ | rfl
    · rfl
    · exact isControl_escape hc
    · rfl
  · rw [opensBlock, ← List.cons_append, List.getLast?_append]
    rfl

theorem isSafe_intercalate : ∀ {texts : List String}, (∀ t ∈ texts, isSafe t = true) →
    isSafe (", ".intercalate texts) = true
  | [], _ => by decide
  | [t], h => by
    rw [String.intercalate_singleton]
    exact h t List.mem_cons_self
  | t :: u :: texts, h => by
    obtain ⟨ht, h⟩ := List.forall_mem_cons.mp h
    rw [String.intercalate_cons_cons]
    exact isSafe_append (isSafe_append ht (by decide)) (isSafe_intercalate h)

section
variable {texts : List String} (h : ∀ t ∈ texts, isSafe t = true)
include h

theorem isSafe_braced : isSafe (braced texts) = true :=
  isSafe_append (isSafe_append (by decide) (isSafe_intercalate h)) (by decide)

theorem isSafe_bracketed : isSafe (bracketed texts) = true :=
  isSafe_append (isSafe_append (by decide) (isSafe_intercalate h)) (by decide)

end

theorem isSafe_entry {k v : String} (hk : isSafe k = true) (hv : isSafe v = true) :
    isSafe (k ++ ": " ++ v) = true :=
  isSafe_append (isSafe_append hk (by decide)) hv

namespace Literal

mutual

/-- Whatever a literal holds, its text keeps to its line. -/
theorem isSafe_text : ∀ l : Literal, isSafe l.text = true
  | .none | .bool true | .bool false | .set [] => by decide
  | .int n => isSafe_of_all (inline_toString n)
  | .float x => isSafe_floatText x
  | .complex re im => isSafe_complexText re im
  | .str s => isSafe_quote s
  | .list items => isSafe_bracketed (isSafe_texts items)
  | .set (item :: items) => isSafe_braced (isSafe_texts (item :: items))
  | .dict pairs => isSafe_braced (isSafe_pairTexts pairs)

theorem isSafe_texts : ∀ (ls : List Literal) (t : String), t ∈ texts ls → isSafe t = true
  | l :: ls, t, h => by
    rcases List.mem_cons.mp h with rfl | h
    · exact isSafe_text l
    · exact isSafe_texts ls t h

theorem isSafe_pairTexts : ∀ (ps : List (Literal × Literal)) (t : String), t ∈ pairTexts ps →
    isSafe t = true
  | (k, v) :: ps, t, h => by
    rcases List.mem_cons.mp h with rfl | h
    · exact isSafe_entry (isSafe_text k) (isSafe_text v)
    · exact isSafe_pairTexts ps t h

end

end Literal

/-! ## Expressions -/

namespace Expr

mutual

/-- Whether the names and types of an expression are plain. -/
@[simp] def solid : Expr → Bool
  | .hole => true
  | .scratch s => isPlain s
  | .name n => isPlain n
  | .literal _ => true
  | .attr e n => e.solid && isPlain n
  | .call e args => e.solid && solidAll args
  | .index e i => e.solid && i.solid
  | .cast t e => isPlain t && e.solid
  | .deref e => e.solid
  | .inc e => e.solid
  | .binary _ a b => a.solid && b.solid
  | .not e => e.solid
  | .isInstance e ts => e.solid && ts.all isPlain
  | .hasAttr e _ => e.solid
  | .construct t args => isPlain t && solidAll args
  | .alloc t => isPlain t
  | .list items => solidAll items
  | .dict pairs => solidPairs pairs
termination_by structural e => e

/-- Whether the names and types of the expressions of a list are plain. -/
@[simp] def solidAll : List Expr → Bool
  | [] => true
  | e :: es => e.solid && solidAll es
termination_by structural es => es

/-- Whether the names and types of the pairs of a list are plain. -/
@[simp] def solidPairs : List (Expr × Expr) → Bool
  | [] => true
  | (k, v) :: ps => k.solid && v.solid && solidPairs ps
termination_by structural ps => ps

end

/-- Whether an expression may stand first in a line: what it starts with may. -/
@[simp] def leads : Expr → Bool
  | .scratch s => isLeading s
  | .name n => isLeading n
  | .literal _ => false
  | .attr e _ => e.leads
  | .call e _ => e.leads
  | .index e _ => e.leads
  | .binary _ a _ => a.leads
  | .construct t _ => isLeading t
  | _ => true

theorem isSafe_operandText (least : Precedence) (e : Expr) {t : String} (h : isSafe t = true) :
    isSafe (operandText least e t) = true := by
  unfold operandText
  split
  · exact isSafe_append (isSafe_append (by decide) h) (by decide)
  · exact h

theorem isLeading_operandText (least : Precedence) (e : Expr) {t : String}
    (h : isLeading t = true) : isLeading (operandText least e t) = true := by
  unfold operandText
  split
  · exact isLeading_append (isLeading_append (by decide) _) _
  · exact h

theorem isSafe_typesText : ∀ {ts : List String}, ts.all isPlain = true →
    isSafe (typesText ts) = true
  | [t], h => isSafe_of_isPlain (s := t) (by simpa using h)
  | [], _ => by decide
  | t :: u :: ts, h => by
    have hall : ∀ x ∈ t :: u :: ts, isSafe x = true :=
      fun x hx => isSafe_of_isPlain (List.all_eq_true.mp h x hx)
    exact isSafe_append (isSafe_append (by decide) (isSafe_intercalate hall)) (by decide)

mutual

/-- The text of an expression keeps to its line if its names and types are plain. -/
theorem isSafe_text : ∀ e : Expr, e.solid = true → isSafe e.text = true
  | .hole, _ => by decide
  | .scratch _, h | .name _, h => isSafe_of_isPlain h
  | .literal l, _ => l.isSafe_text
  | .attr e n, h => by
    obtain ⟨he, hn⟩ := Bool.and_eq_true_iff.mp h
    exact isSafe_append (isSafe_append (isSafe_operandText _ e (isSafe_text e he)) (by decide))
      (isSafe_of_isPlain hn)
  | .call e args, h => by
    obtain ⟨he, hargs⟩ := Bool.and_eq_true_iff.mp h
    exact isSafe_append (isSafe_append (isSafe_append (isSafe_operandText _ e (isSafe_text e he))
      (by decide)) (isSafe_intercalate fun t => isSafe_texts args t hargs)) (by decide)
  | .index e i, h => by
    obtain ⟨he, hi⟩ := Bool.and_eq_true_iff.mp h
    exact isSafe_append (isSafe_append (isSafe_append (isSafe_operandText _ e (isSafe_text e he))
      (by decide)) (isSafe_text i hi)) (by decide)
  | .cast t e, h => by
    obtain ⟨ht, he⟩ := Bool.and_eq_true_iff.mp h
    exact isSafe_append (isSafe_append (isSafe_append (by decide) (isSafe_of_isPlain ht))
      (by decide)) (isSafe_operandText _ e (isSafe_text e he))
  | .deref e, h | .inc e, h =>
    isSafe_append (isSafe_append (by decide) (isSafe_text e h)) (by decide)
  | .binary op a b, h => by
    obtain ⟨ha, hb⟩ := Bool.and_eq_true_iff.mp h
    have hop : isSafe op.symbol = true := by cases op <;> decide
    exact isSafe_append (isSafe_append (isSafe_append (isSafe_append
      (isSafe_operandText _ a (isSafe_text a ha)) (by decide)) hop) (by decide))
      (isSafe_operandText _ b (isSafe_text b hb))
  | .not e, h => isSafe_append (by decide) (isSafe_operandText _ e (isSafe_text e h))
  | .isInstance e ts, h => by
    obtain ⟨he, hts⟩ := Bool.and_eq_true_iff.mp h
    exact isSafe_append (isSafe_append (isSafe_append (isSafe_append (by decide)
      (isSafe_text e he)) (by decide)) (isSafe_typesText hts)) (by decide)
  | .hasAttr e n, h =>
    isSafe_append (isSafe_append (isSafe_append (isSafe_append (by decide) (isSafe_text e h))
      (by decide)) (isSafe_quote n)) (by decide)
  | .construct t args, h => by
    obtain ⟨ht, hargs⟩ := Bool.and_eq_true_iff.mp h
    exact isSafe_append (isSafe_append (isSafe_append (isSafe_of_isPlain ht) (by decide))
      (isSafe_intercalate fun t => isSafe_texts args t hargs)) (by decide)
  | .alloc t, h => isSafe_append (isSafe_append (by decide) (isSafe_of_isPlain h)) (by decide)
  | .list items, h => isSafe_bracketed fun t => isSafe_texts items t h
  | .dict pairs, h => isSafe_braced fun t => isSafe_pairTexts pairs t h

theorem isSafe_texts : ∀ (es : List Expr) (t : String), solidAll es = true → t ∈ texts es →
    isSafe t = true
  | e :: es, t, h, ht => by
    obtain ⟨he, hes⟩ := Bool.and_eq_true_iff.mp h
    rcases List.mem_cons.mp ht with rfl | ht
    · exact isSafe_text e he
    · exact isSafe_texts es t hes ht

theorem isSafe_pairTexts : ∀ (ps : List (Expr × Expr)) (t : String), solidPairs ps = true →
    t ∈ pairTexts ps → isSafe t = true
  | (k, v) :: ps, t, h, ht => by
    obtain ⟨hkv, hps⟩ := Bool.and_eq_true_iff.mp h
    obtain ⟨hk, hv⟩ := Bool.and_eq_true_iff.mp hkv
    rcases List.mem_cons.mp ht with rfl | ht
    · exact isSafe_entry (isSafe_text k hk) (isSafe_text v hv)
    · exact isSafe_pairTexts ps t hps ht

end

/-- The text of an expression may stand first in a line if what it starts with may. -/
theorem isLeading_text : ∀ e : Expr, e.leads = true → isLeading e.text = true
  | .hole, _ => by decide
  | .scratch _, h => h
  | .name _, h => h
  | .attr e n, h =>
    isLeading_append (isLeading_append (isLeading_operandText _ e (isLeading_text e h)) _) _
  | .call e args, h =>
    isLeading_append (isLeading_append (isLeading_append
      (isLeading_operandText _ e (isLeading_text e h)) _) _) _
  | .index e i, h =>
    isLeading_append (isLeading_append (isLeading_append
      (isLeading_operandText _ e (isLeading_text e h)) _) _) _
  | .binary op a b, h =>
    isLeading_append (isLeading_append (isLeading_append (isLeading_append
      (isLeading_operandText _ a (isLeading_text a h)) _) _) _) _
  | .cast t e, _ => isLeading_append (isLeading_append (isLeading_append (by decide) _) _) _
  | .deref e, _ => isLeading_append (isLeading_append (by decide) _) _
  | .inc e, _ => isLeading_append (isLeading_append (by decide) _) _
  | .alloc t, _ => isLeading_append (isLeading_append (by decide) _) _
  | .not e, _ => isLeading_append (by decide) _
  | .isInstance e ts, _ =>
    isLeading_append (isLeading_append (isLeading_append (isLeading_append (by decide) _) _) _) _
  | .hasAttr e n, _ =>
    isLeading_append (isLeading_append (isLeading_append (isLeading_append (by decide) _) _) _) _
  | .construct t args, h => isLeading_append (isLeading_append (isLeading_append h _) _) _
  | .list items, _ => isLeading_append (isLeading_append (by decide) _) _
  | .dict pairs, _ => isLeading_append (isLeading_append (by decide) _) _
termination_by structural e => e

/-- An expression may be a line of its own. -/
theorem isSolid_text {e : Expr} (hl : e.leads = true) (hs : e.solid = true) :
    isSolid e.text = true :=
  Bool.and_eq_true_iff.mpr ⟨isLeading_text e hl, isSafe_text e hs⟩

end Expr

end WrapGen.Code
