import WrapGen.Proofs.Grammar.Number
import WrapGen.Proofs.Grammar.Token

/-!
# Literals are expressions

`IsExpression` is what the target language has for literals: names, numerals, imaginary
numbers, quoted texts, sums, calls and displays. A literal is written as such an expression
whatever floats it holds, but for one case. An imaginary part that is no number is written
as a call, and no expression goes on with `j` right behind a call.

* `isExpression_text_iff`: the text of a literal is an expression when no imaginary part in
  it is an infinity or NaN, and only then.
* `number_literals_read_back`: what floats and complex numbers are written as, and what is
  read from it.
-/
namespace WrapGen.Grammar

open Code Decimal Binary

/-! ## The syntax of expressions -/

/-- The expressions that literals are made of. -/
inductive IsExpression : List Char → Prop
  | name {n : String} : isIdentifier n = true → IsExpression n.toList
  | numeral {ds v} : Numeral ds v → IsExpression ds
  | imaginary {ds v} : Numeral ds v → IsExpression (ds ++ ['j'])
  | str {pieces : List (List Char × Char)} : (∀ p ∈ pieces, Escapes p.1 p.2) →
      IsExpression ('"' :: ((pieces.map (·.1)).flatten ++ ['"']))
  | negative {cs} : IsExpression cs → IsExpression ('-' :: cs)
  | sum {op cs ds} : op = '+' ∨ op = '-' → IsExpression cs → IsExpression ds →
      IsExpression (cs ++ op :: ds)
  | group {cs} : IsExpression cs → IsExpression ('(' :: (cs ++ [')']))
  | call {cs args} : IsExpression cs → (∀ a ∈ args, IsExpression a) →
      IsExpression (cs ++ '(' :: (separated args ++ [')']))
  | list {items} : (∀ i ∈ items, IsExpression i) →
      IsExpression ('[' :: (separated items ++ [']']))
  | set {items} : items ≠ [] → (∀ i ∈ items, IsExpression i) →
      IsExpression ('\x7b' :: (separated items ++ ['\x7d']))
  | dict {entries : List (List Char × List Char)} : (∀ e ∈ entries, IsExpression e.1) →
      (∀ e ∈ entries, IsExpression e.2) →
      IsExpression ('\x7b' :: (separated (entries.map fun e => entry e.1 e.2) ++ ['\x7d']))

mutual

/-- Whether the imaginary parts in a literal are numbers. -/
def imaginaryFinite : Literal → Bool
  | .complex _ im => im.isFinite
  | .list items | .set items => allImaginaryFinite items
  | .dict pairs => pairsImaginaryFinite pairs
  | _ => true
termination_by structural l => l

/-- Whether the imaginary parts in the literals of a list are. -/
def allImaginaryFinite : List Literal → Bool
  | [] => true
  | l :: ls => imaginaryFinite l && allImaginaryFinite ls
termination_by structural ls => ls

/-- Whether the imaginary parts in the pairs of a list are. -/
def pairsImaginaryFinite : List (Literal × Literal) → Bool
  | [] => true
  | (k, v) :: ps => imaginaryFinite k && imaginaryFinite v && pairsImaginaryFinite ps
termination_by structural ps => ps

end

/-! ## What no expression contains -/

/-- Where a reader of characters is: outside of quotes, maybe right behind a closing
parenthesis; between quotes; behind a backslash there; or past an imaginary suffix that
follows a parenthesis. -/
inductive Scan where
  | code (closed : Bool)
  | quoted
  | escaped
  | failed
  deriving DecidableEq

/-- One character further. -/
def Scan.step : Scan → Char → Scan
  | .code closed, c =>
    if closed && c == 'j' then .failed
    else if c == '"' then .quoted
    else .code (c == ')')
  | .quoted, c => if c == '"' then .code false else if c == '\\' then .escaped else .quoted
  | .escaped, _ => .quoted
  | .failed, _ => .failed

/-- Where a text that starts outside of quotes leads. -/
def scan (cs : List Char) : Scan := cs.foldl Scan.step (.code false)

/-- Whether a text leads out of its quotes and has no suffix behind a parenthesis. -/
def Clear (cs : List Char) : Prop := ∃ closed, scan cs = .code closed

/-- Whether a text has a suffix behind a parenthesis. -/
def Stuck (cs : List Char) : Prop := scan cs = .failed

/-- A character that a reader outside of quotes passes by. -/
def IsBare (c : Char) : Prop := c ≠ '"' ∧ c ≠ ')'

/-- A character that separates what stands before it from what comes. -/
def IsMark (c : Char) : Prop := IsBare c ∧ c ≠ 'j'

instance : DecidablePred Stuck := fun _ => inferInstanceAs (Decidable (_ = _))

instance : DecidablePred IsBare := fun _ => inferInstanceAs (Decidable (_ ∧ _))

instance : DecidablePred IsMark := fun _ => inferInstanceAs (Decidable (_ ∧ _))

theorem foldl_failed (cs : List Char) : cs.foldl Scan.step .failed = .failed := by
  induction cs with
  | nil => rfl
  | cons c cs ih => exact ih

theorem Scan.step_bare {c : Char} (h : IsBare c) : Scan.step (.code false) c = .code false := by
  simp [Scan.step, h.1, h.2]

theorem Stuck.append {cs : List Char} (h : Stuck cs) (ds : List Char) : Stuck (cs ++ ds) := by
  rw [Stuck, scan, List.foldl_append, ← scan, h, foldl_failed]

theorem not_stuck_of_clear {cs : List Char} (h : Clear cs) : ¬ Stuck cs := by
  obtain ⟨closed, h⟩ := h
  rw [Stuck, h]
  nofun

theorem clear_nil : Clear [] := ⟨false, rfl⟩

theorem clear_of_bare {cs : List Char} (h : ∀ c ∈ cs, IsBare c) : Clear cs := by
  induction cs with
  | nil => exact clear_nil
  | cons c cs ih =>
    obtain ⟨hc, hcs⟩ := List.forall_mem_cons.mp h
    rw [Clear, scan, List.foldl_cons, Scan.step_bare hc]
    exact ih hcs

section
variable {cs ds : List Char} {c : Char}

theorem scan_cons (hc : IsBare c) : scan (c :: ds) = scan ds := by
  rw [scan, List.foldl_cons, Scan.step_bare hc, scan]

/-- Behind a mark the reader is where it started. -/
theorem scan_mark (h : Clear cs) (hc : IsMark c) : scan (cs ++ c :: ds) = scan ds := by
  obtain ⟨closed, h⟩ := h
  obtain ⟨⟨hquote, hparen⟩, hj⟩ := hc
  have hstep : Scan.step (.code closed) c = .code false := by simp [Scan.step, hquote, hparen, hj]
  rw [scan, List.foldl_append, ← scan, h, List.foldl_cons, hstep, scan]

theorem Clear.mark (h : Clear cs) (hd : Clear ds) (hc : IsMark c) : Clear (cs ++ c :: ds) := by
  rwa [Clear, scan_mark h hc]

theorem Clear.paren (h : Clear cs) : Clear (cs ++ [')']) := by
  obtain ⟨closed, h⟩ := h
  rw [Clear, scan, List.foldl_append, ← scan, h]
  cases closed <;> exact ⟨_, rfl⟩

end

section
variable {x : List Char} {xs items : List (List Char)}

theorem scan_separated_cons (hx : Clear x) (hne : xs ≠ []) :
    scan (separated (x :: xs)) = scan (separated xs) := by
  rw [← List.append_nil (separated _), separated_cons_append, if_neg (by simpa using hne),
    scan_mark hx (by decide), scan_cons (by decide), List.append_nil]

theorem clear_separated (h : ∀ i ∈ items, Clear i) : Clear (separated items) := by
  induction items with
  | nil => exact clear_nil
  | cons x xs ih =>
    obtain ⟨hx, hxs⟩ := List.forall_mem_cons.mp h
    rcases eq_or_ne xs [] with rfl | hne
    · simpa [separated] using hx
    · rw [Clear, scan_separated_cons hx hne]
      exact ih hxs

/-- The first item that leads nowhere decides. -/
theorem stuck_separated (h : ∀ i ∈ items, Clear i ∨ Stuck i) (hstuck : ∃ i ∈ items, Stuck i) :
    Stuck (separated items) := by
  induction items with
  | nil => simp at hstuck
  | cons x xs ih =>
    obtain ⟨hx, hxs⟩ := List.forall_mem_cons.mp h
    rcases hx with hx | hx
    · obtain ⟨i, hi, hs⟩ := hstuck
      have hmem : i ∈ xs := by
        rcases List.mem_cons.mp hi with rfl | hi
        · exact absurd hs (not_stuck_of_clear hx)
        · exact hi
      rw [Stuck, scan_separated_cons hx (List.ne_nil_of_mem hmem)]
      exact ih hxs ⟨i, hmem, hs⟩
    · rw [← List.append_nil (separated _), separated_cons_append]
      exact hx.append _

end

theorem isBare_of_isDigit {c : Char} (h : c.isDigit = true) : IsBare c := by
  constructor <;> rintro rfl <;> cases h

theorem isBare_of_isWordChar {c : Char} (h : isWordChar c = true) : IsBare c := by
  constructor <;> rintro rfl <;> exact absurd h (by decide)

theorem Mantissa.bare {ds : List Char} {v : ℚ} (h : Mantissa ds v) : ∀ c ∈ ds, IsBare c := by
  cases h with
  | whole hd => exact fun c hc => isBare_of_isDigit (hd.digits c hc)
  | point hd hf =>
    exact List.forall_mem_append.mpr ⟨fun c hc => isBare_of_isDigit (hd.digits c hc),
      List.forall_mem_cons.mpr ⟨by decide, fun c hc => isBare_of_isDigit (hf.digits c hc)⟩⟩

theorem bare_int {ds : List Char} {n : ℤ} (h : Denotes ds (.int n)) : ∀ c ∈ ds, IsBare c := by
  cases h with
  | nat hd => exact fun c hc => isBare_of_isDigit (hd.digits c hc)
  | neg hd =>
    exact List.forall_mem_cons.mpr ⟨by decide, fun c hc => isBare_of_isDigit (hd.digits c hc)⟩

theorem Numeral.bare {ds : List Char} {v : ℚ} (h : Numeral ds v) : ∀ c ∈ ds, IsBare c := by
  cases h with
  | plain hm => exact hm.bare
  | scaled hm he =>
    exact List.forall_mem_append.mpr ⟨hm.bare,
      List.forall_mem_cons.mpr ⟨by decide, bare_int he⟩⟩

theorem Escapes.foldl_quoted {cs : List Char} {c : Char} (h : Escapes cs c) :
    cs.foldl Scan.step .quoted = .quoted := by
  have hhex : ∀ {a : Char} {m : ℕ}, Json.hexDigit? a = some m → a ≠ '"' ∧ a ≠ '\\' := by
    intro a m ha
    constructor <;> rintro rfl <;> cases ha
  cases h with
  | plain hquote hslash => simp [Scan.step, hquote, hslash]
  | short => simp [Scan.step]
  | hex ha hb => simp [Scan.step, hhex ha, hhex hb]

theorem clear_quoted {pieces : List (List Char × Char)} (h : ∀ p ∈ pieces, Escapes p.1 p.2) :
    Clear ('"' :: ((pieces.map (·.1)).flatten ++ ['"'])) := by
  have hinside : (pieces.map (·.1)).flatten.foldl Scan.step .quoted = .quoted := by
    induction pieces with
    | nil => rfl
    | cons p pieces ih =>
      obtain ⟨hp, hpieces⟩ := List.forall_mem_cons.mp h
      rw [List.map_cons, List.flatten_cons, List.foldl_append, hp.foldl_quoted, ih hpieces]
  refine ⟨false, ?_⟩
  rw [scan, List.foldl_cons, List.foldl_append]
  show ['"'].foldl Scan.step ((pieces.map (·.1)).flatten.foldl Scan.step .quoted) = _
  rw [hinside]
  rfl

/-- No expression has an imaginary suffix behind a parenthesis. -/
theorem IsExpression.clear {cs : List Char} (h : IsExpression cs) : Clear cs := by
  induction h with
  | name hn =>
    have hall := (Bool.and_eq_true_iff.mp hn).1
    exact clear_of_bare fun c hc => isBare_of_isWordChar (List.all_eq_true.mp hall c hc)
  | numeral hn => exact clear_of_bare hn.bare
  | imaginary hn =>
    exact clear_of_bare (List.forall_mem_append.mpr ⟨hn.bare, List.forall_mem_singleton.mpr (by decide)⟩)
  | str hp => exact clear_quoted hp
  | negative _ ih => exact clear_nil.mark ih (by decide)
  | sum hop _ _ ih ih' => exact ih.mark ih' (by rcases hop with rfl | rfl <;> decide)
  | group _ ih => exact clear_nil.mark ih.paren (by decide)
  | call _ _ ih ihargs => exact ih.mark (clear_separated ihargs).paren (by decide)
  | list _ ih => exact clear_nil.mark ((clear_separated ih).mark clear_nil (by decide)) (by decide)
  | set _ _ ih =>
    exact clear_nil.mark ((clear_separated ih).mark clear_nil (by decide)) (by decide)
  | dict _ _ ihk ihv =>
    refine clear_nil.mark ((clear_separated ?_).mark clear_nil (by decide)) (by decide)
    exact List.forall_mem_map.mpr fun e he =>
      (ihk e he).mark (clear_nil.mark (ihv e he) (by decide)) (by decide)

/-! ## The texts of literals -/

section
variable {x re im : Double}

/-- A float that is no number is written as a call. -/
theorem floatText_of_not_isFinite (h : x.isFinite = false) :
    floatText x ∈ ["float(\"nan\")", "float(\"inf\")", "float(\"-inf\")"] := by
  unfold floatText
  cases hnan : x.isNaN
  · have hinfinite : x.isInfinite = true := by
      simp only [Word.isFinite, Word.isNaN, Word.isInfinite, decide_eq_false_iff_not,
        beq_iff_eq] at h hnan ⊢
      omega
    rw [hinfinite]
    cases x.isNegative <;> simp
  · simp

theorem isExpression_quote (s : String) : IsExpression (Text.quote s).toList := by
  have hpieces : ∀ p ∈ s.toList.map fun c => (Text.escape c, c), Escapes p.1 p.2 :=
    List.forall_mem_map.mpr fun c _ => escapes_escape c
  have h := IsExpression.str hpieces
  rw [List.map_map, Function.comp_def, ← List.flatMap_def] at h
  rwa [Text.quote, String.toList_ofList, Text.quoteChars]

theorem isExpression_call (h : x.isFinite = false) : IsExpression (floatText x).toList := by
  have hcall (word : String) :
      IsExpression ("float".toList ++ '(' :: (separated [(Text.quote word).toList] ++ [')'])) :=
    .call (.name (by decide)) (by simpa using isExpression_quote word)
  have h := floatText_of_not_isFinite h
  simp only [List.mem_cons, List.not_mem_nil, or_false] at h
  rcases h with h | h | h <;> rw [h]
  · exact hcall "nan"
  · exact hcall "inf"
  · exact hcall "-inf"

theorem isExpression_signed {cs : List Char} (h : IsExpression cs) :
    IsExpression ((if x.isNegative then ['-'] else []) ++ cs) := by
  cases x.isNegative
  · exact h
  · exact h.negative

theorem isExpression_float (x : Double) : IsExpression (floatText x).toList := by
  cases h : x.isFinite
  · exact isExpression_call h
  · rw [floatText_of_isFinite h]
    exact isExpression_signed (.numeral (numeral_magnitude _ x))

theorem isExpression_complex (him : im.isFinite = true) :
    IsExpression (complexText re im).toList := by
  have himaginary := IsExpression.imaginary (numeral_magnitude Layout.standard im)
  unfold complexText
  split
  · rw [String.toList_append, floatText_of_isFinite him, List.append_assoc]
    exact isExpression_signed himaginary
  · have hsum : ∀ op, op = '+' ∨ op = '-' → IsExpression ('(' :: (((floatText re).toList ++
        op :: (writeMagnitude Layout.standard im ++ ['j'])) ++ [')'])) :=
      fun op hop => .group (.sum hop (isExpression_float re) himaginary)
    have habs := floatText_abs him
    cases im.isNegative
    · simpa [habs] using hsum '+' (.inl rfl)
    · simpa [habs] using hsum '-' (.inr rfl)

theorem stuck_complex (him : im.isFinite = false) : Stuck (complexText re im).toList := by
  -- whatever the sign is, a call stands in front of the suffix
  have hcall : ∀ {y : Double}, y.isFinite = false → Stuck ((floatText y).toList ++ ['j']) := by
    intro y hy
    have h := floatText_of_not_isFinite hy
    simp only [List.mem_cons, List.not_mem_nil, or_false] at h
    rcases h with h | h | h <;> rw [h] <;> decide
  have habs : im.abs.isFinite = false := by
    rw [Word.isFinite, magnitude_abs]
    exact him
  unfold complexText
  split
  · rw [String.toList_append]
    exact hcall him
  · have hsum : ∀ op, op = '+' ∨ op = '-' → Stuck ('(' :: ((floatText re).toList ++
        op :: ((floatText im.abs).toList ++ ['j'] ++ [')']))) := by
      intro op hop
      have hmark : IsMark op := by rcases hop with rfl | rfl <;> decide
      rw [Stuck, scan_cons (by decide), scan_mark (isExpression_float re).clear hmark]
      exact (hcall habs).append _
    cases im.isNegative
    · simpa using hsum '+' (.inl rfl)
    · simpa using hsum '-' (.inr rfl)

end

theorem allImaginaryFinite_eq (ls : List Literal) :
    allImaginaryFinite ls = ls.all imaginaryFinite := by
  induction ls with
  | nil => rfl
  | cons l ls ih => rw [allImaginaryFinite, ih, List.all_cons]

theorem pairsImaginaryFinite_eq (ps : List (Literal × Literal)) :
    pairsImaginaryFinite ps = ps.all fun p => imaginaryFinite p.1 && imaginaryFinite p.2 := by
  induction ps with
  | nil => rfl
  | cons p ps ih => rw [pairsImaginaryFinite, ih, List.all_cons]

theorem isExpression_int {ds : List Char} {n : ℤ} (h : Denotes ds (.int n)) :
    IsExpression ds := by
  cases h with
  | nat hd => exact .numeral (.plain (.whole hd))
  | neg hd => exact .negative (.numeral (.plain (.whole hd)))

mutual

theorem isExpression_text : ∀ l : Literal, imaginaryFinite l = true → IsExpression l.text.toList
  | .none, _ => .name (n := "None") (by decide)
  | .bool true, _ => .name (n := "True") (by decide)
  | .bool false, _ => .name (n := "False") (by decide)
  | .int n, _ => isExpression_int (denotes_int n)
  | .float x, _ => isExpression_float x
  | .complex _ _, h => isExpression_complex h
  | .str s, _ => isExpression_quote s
  | .list items, h => by
    rw [Literal.text, toList_bracketed]
    exact .list (List.forall_mem_map.mpr (isExpression_texts items h))
  | .set [], _ => by
    have hcall : IsExpression ("set".toList ++ '(' :: (separated [] ++ [')'])) :=
      .call (.name (by decide)) nofun
    exact hcall
  | .set (item :: items), h => by
    rw [Literal.text, toList_braced]
    exact .set (List.cons_ne_nil _ _) (List.forall_mem_map.mpr (isExpression_texts (item :: items) h))
  | .dict pairs, h => by
    have hpairs := isExpression_pairTexts pairs h
    have hkeys : ∀ e ∈ pairs.map fun p => (p.1.text.toList, p.2.text.toList), IsExpression e.1 :=
      List.forall_mem_map.mpr fun p hp => (hpairs p hp).1
    have hdict := IsExpression.dict hkeys (List.forall_mem_map.mpr fun p hp => (hpairs p hp).2)
    rw [List.map_map, Function.comp_def] at hdict
    rwa [Literal.text, toList_pairs]
termination_by structural l => l

theorem isExpression_texts : ∀ ls : List Literal, allImaginaryFinite ls = true →
    ∀ l ∈ ls, IsExpression l.text.toList
  | [], _ => nofun
  | l :: ls, h => by
    obtain ⟨hl, hls⟩ := Bool.and_eq_true_iff.mp h
    exact List.forall_mem_cons.mpr ⟨isExpression_text l hl, isExpression_texts ls hls⟩
termination_by structural ls => ls

theorem isExpression_pairTexts : ∀ ps : List (Literal × Literal), pairsImaginaryFinite ps = true →
    ∀ p ∈ ps, IsExpression p.1.text.toList ∧ IsExpression p.2.text.toList
  | [], _ => nofun
  | (k, v) :: ps, h => by
    obtain ⟨hkv, hps⟩ := Bool.and_eq_true_iff.mp h
    obtain ⟨hk, hv⟩ := Bool.and_eq_true_iff.mp hkv
    exact List.forall_mem_cons.mpr ⟨⟨isExpression_text k hk, isExpression_text v hv⟩,
      isExpression_pairTexts ps hps⟩
termination_by structural ps => ps

end

/-! ## Where the texts of literals lead -/

/-- Where a text leads is known: through, or nowhere. -/
def Leads : Bool → List Char → Prop
  | true, cs => Clear cs
  | false, cs => Stuck cs

namespace Leads

variable {a b : Bool} {cs k v : List Char}

theorem clear_or_stuck (h : Leads b cs) : Clear cs ∨ Stuck cs := by
  cases b
  · exact .inr h
  · exact .inl h

theorem enclosed (h : Leads b cs) {c d : Char} (hc : IsBare c) (hd : IsMark d) :
    Leads b (c :: (cs ++ [d])) := by
  cases b
  · rw [Leads, Stuck, scan_cons hc]
    exact Stuck.append h [d]
  · rw [Leads, Clear, scan_cons hc]
    exact Clear.mark h clear_nil hd

theorem entry (hk : Leads a k) (hv : Leads b v) : Leads (a && b) (entry k v) := by
  cases a
  · exact Stuck.append hk _
  · have hscan : scan (Grammar.entry k v) = scan v := by
      rw [Grammar.entry, scan_mark hk (by decide), scan_cons (by decide)]
    cases b
    · exact hscan.trans hv
    · rwa [Bool.and_self, Leads, Clear, hscan]

theorem separated {α : Type} {good : α → Bool} {text : α → List Char} {xs : List α}
    (h : ∀ x ∈ xs, Leads (good x) (text x)) : Leads (xs.all good) (separated (xs.map text)) := by
  cases hall : xs.all good
  · obtain ⟨x, hx, hgood⟩ := List.all_eq_false.mp hall
    refine stuck_separated (List.forall_mem_map.mpr fun y hy => (h y hy).clear_or_stuck)
      ⟨text x, List.mem_map_of_mem hx, ?_⟩
    have hleads := h x hx
    rwa [Bool.eq_false_of_not_eq_true hgood] at hleads
  · refine clear_separated (List.forall_mem_map.mpr fun x hx => ?_)
    have hleads := h x hx
    rwa [List.all_eq_true.mp hall x hx] at hleads

end Leads

mutual

theorem leads_text : ∀ l : Literal, Leads (imaginaryFinite l) l.text.toList
  | .none | .bool true | .bool false | .set [] => ⟨_, rfl⟩
  | .int n => (isExpression_int (denotes_int n)).clear
  | .float x => (isExpression_float x).clear
  | .complex re im => by
    cases h : im.isFinite
    · rw [imaginaryFinite, h]
      exact stuck_complex h
    · rw [imaginaryFinite, h]
      exact (isExpression_complex h).clear
  | .str s => (isExpression_quote s).clear
  | .list items => by
    rw [Literal.text, toList_bracketed, imaginaryFinite, allImaginaryFinite_eq]
    exact (Leads.separated (leads_texts items)).enclosed (by decide) (by decide)
  | .set (item :: items) => by
    rw [Literal.text, toList_braced, imaginaryFinite, allImaginaryFinite_eq]
    exact (Leads.separated (leads_texts (item :: items))).enclosed (by decide) (by decide)
  | .dict pairs => by
    rw [Literal.text, toList_pairs, imaginaryFinite, pairsImaginaryFinite_eq]
    exact (Leads.separated (leads_pairTexts pairs)).enclosed (by decide) (by decide)
termination_by structural l => l

theorem leads_texts : ∀ (ls : List Literal) (l : Literal), l ∈ ls →
    Leads (imaginaryFinite l) l.text.toList
  | [], _ => nofun
  | l :: ls, m => by
    have hall : ∀ l' ∈ l :: ls, Leads (imaginaryFinite l') l'.text.toList :=
      List.forall_mem_cons.mpr ⟨leads_text l, leads_texts ls⟩
    exact hall m
termination_by structural ls => ls

theorem leads_pairTexts : ∀ (ps : List (Literal × Literal)) (p : Literal × Literal), p ∈ ps →
    Leads (imaginaryFinite p.1 && imaginaryFinite p.2) (entry p.1.text.toList p.2.text.toList)
  | [], _ => nofun
  | (k, v) :: ps, p => by
    have hall : ∀ p ∈ (k, v) :: ps, Leads (imaginaryFinite p.1 && imaginaryFinite p.2)
        (entry p.1.text.toList p.2.text.toList) :=
      List.forall_mem_cons.mpr ⟨(leads_text k).entry (leads_text v), leads_pairTexts ps⟩
    exact hall p
termination_by structural ps => ps

end

/-- The text of a literal is an expression when the imaginary parts in it are numbers, and
only then. -/
theorem isExpression_text_iff (l : Literal) :
    IsExpression l.text.toList ↔ imaginaryFinite l = true := by
  refine ⟨fun h => ?_, isExpression_text l⟩
  by_contra hbad
  have hleads := leads_text l
  rw [Bool.eq_false_of_not_eq_true hbad] at hleads
  exact not_stuck_of_clear h.clear hleads

/-- An infinity as the imaginary part spoils the text. -/
theorem not_isExpression_imaginary_infinity :
    ¬ IsExpression (Literal.complex (Word.ofBits 0) (Word.ofBits 0x7ff0000000000000)).text.toList := by
  rw [isExpression_text_iff]
  decide

/-- The text of a literal is an expression unless an imaginary part in it is an infinity or
NaN. A float is a numeral with its sign, or one of three calls. What stands for a complex
number whose parts are finite and not zero has one value, and its parts are read as these
parts and as nothing else. -/
theorem number_literals_read_back (l : Literal) (x re im : Double) :
    (IsExpression l.text.toList ↔ imaginaryFinite l = true) ∧
    (x.isFinite = true ∧ (∃ ds v, Numeral ds v ∧
        ((Literal.float x).text.toList = ds ∨ (Literal.float x).text.toList = '-' :: ds)) ∨
      x.isFinite = false ∧
        (Literal.float x).text ∈ ["float(\"nan\")", "float(\"inf\")", "float(\"-inf\")"]) ∧
    (re.isFinite = true → im.isFinite = true → re.isZero = false → im.isZero = false → ∃ v w,
      (∀ z, Number .term (Literal.complex re im).text.toList z ↔ z = (v, w)) ∧
      (∀ y, Word.Nearest v y ↔ y = re) ∧ ∀ y, Word.Nearest w y ↔ y = im) := by
  refine ⟨isExpression_text_iff l, ?_, complex_reads_back⟩
  cases h : x.isFinite
  · exact .inr ⟨rfl, floatText_of_not_isFinite h⟩
  · refine .inl ⟨rfl, _, _, numeral_magnitude Layout.standard x, ?_⟩
    show (floatText x).toList = _ ∨ (floatText x).toList = _
    rw [floatText_of_isFinite h]
    cases x.isNegative
    · exact .inl rfl
    · exact .inr rfl

/-- The parts are `-65.55` and `-1.0`. -/
theorem number_literals_read_back_negative :
    let re : Double := Word.ofBits 0xc050633333333333
    let im : Double := Word.ofBits 0xbff0000000000000
    (re.isFinite = true ∧ im.isFinite = true ∧ re.isZero = false ∧ im.isZero = false) ∧
      ∃ v w, (∀ z, Number .term (Literal.complex re im).text.toList z ↔ z = (v, w)) ∧
        (∀ y, Word.Nearest v y ↔ y = re) ∧ ∀ y, Word.Nearest w y ↔ y = im :=
  ⟨by decide, (number_literals_read_back .none Word.zero _ _).2.2 (by decide) (by decide)
    (by decide) (by decide)⟩

end WrapGen.Grammar
