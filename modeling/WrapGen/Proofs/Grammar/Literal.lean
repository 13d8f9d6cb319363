import Mathlib.Data.List.Forall2
import WrapGen.Json.Reader
import WrapGen.Proofs.Code.OneLine

/-!
# Literals read back

`Denotes` is the syntax of literals: the three words, decimal integers, text between
double quotes, and displays. Neither a quoted text nor a display has to be searched for
its end, since what is inside is known to end by itself (`Denotes.decodes`). So a text
is written for at most one literal, and what is written for a literal without floats is
that literal again, whatever texts it holds.

* `Denotes.unique`: a text denotes one literal.
* `literal_reads_back`: the text of a literal without floats keeps to one line and
  denotes the literal.
-/
namespace WrapGen.Grammar

open Code

/-! ## The syntax of literals -/

/-- The character that a letter behind a backslash stands for. -/
def shortEscape? : Char → Option Char
  | '"' => some '"'
  | '\\' => some '\\'
  | 'n' => some '\n'
  | 'r' => some '\r'
  | 't' => some '\t'
  | _ => none

/-- How one character is written between double quotes. -/
inductive Escapes : List Char → Char → Prop
  | plain {c} : c ≠ '"' → c ≠ '\\' → c ≠ '\n' → c ≠ '\r' → Escapes [c] c
  | short {e c} : shortEscape? e = some c → Escapes ['\\', e] c
  | hex {a b m n} : Json.hexDigit? a = some m → Json.hexDigit? b = some n →
      Escapes ['\\', 'x', a, b] (Char.ofNat (16 * m + n))

/-- Decimal digits, at least one. -/
structure IsDigits (ds : List Char) : Prop where
  ne_nil : ds ≠ []
  digits : ∀ d ∈ ds, d.isDigit = true

/-- Digits of a decimal integer: a zero at the start stands alone. -/
structure IsDecimal (ds : List Char) : Prop extends IsDigits ds where
  leading : ds.head? = some '0' → ds = ['0']

/-- Texts with a comma and a space between them. -/
def separated (texts : List (List Char)) : List Char := [',', ' '].intercalate texts

/-- The text of an entry of a dict. -/
def entry (key value : List Char) : List Char := key ++ ':' :: ' ' :: value

/-- The literal that a text stands for. -/
inductive Denotes : List Char → Literal → Prop
  | none : Denotes ['N', 'o', 'n', 'e'] .none
  | true : Denotes ['T', 'r', 'u', 'e'] (.bool true)
  | false : Denotes ['F', 'a', 'l', 's', 'e'] (.bool false)
  | nat {ds} : IsDecimal ds → Denotes ds (.int (Nat.ofDigitChars 10 ds 0))
  | neg {ds} : IsDecimal ds → Denotes ('-' :: ds) (.int (-(Nat.ofDigitChars 10 ds 0)))
  | str {pieces : List (List Char × Char)} : (∀ p ∈ pieces, Escapes p.1 p.2) →
      Denotes ('"' :: ((pieces.map (·.1)).flatten ++ ['"'])) (.str (.ofList (pieces.map (·.2))))
  | list {items : List (List Char × Literal)} : (∀ i ∈ items, Denotes i.1 i.2) →
      Denotes ('[' :: (separated (items.map (·.1)) ++ [']'])) (.list (items.map (·.2)))
  | emptySet : Denotes ['s', 'e', 't', '(', ')'] (.set [])
  | set {items : List (List Char × Literal)} : items ≠ [] → (∀ i ∈ items, Denotes i.1 i.2) →
      Denotes ('\x7b' :: (separated (items.map (·.1)) ++ ['\x7d'])) (.set (items.map (·.2)))
  | dict {entries : List ((List Char × Literal) × (List Char × Literal))} :
      (∀ e ∈ entries, Denotes e.1.1 e.1.2) → (∀ e ∈ entries, Denotes e.2.1 e.2.2) →
      Denotes ('\x7b' :: (separated (entries.map fun e => entry e.1.1 e.2.1) ++ ['\x7d']))
        (.dict (entries.map fun e => (e.1.2, e.2.2)))

/-! ## Where a text ends -/

theorem Escapes.prefix_free {p q r s : List Char} {c d : Char} (hp : Escapes p c)
    (hq : Escapes q d) (h : p ++ r = q ++ s) : c = d ∧ r = s := by
  cases hp <;> cases hq <;> grind [shortEscape?]

/-- A quoted text ends at the first quote that is not written for a character. -/
theorem quoted_decodes {ps qs : List (List Char × Char)} {r s : List Char}
    (hps : ∀ p ∈ ps, Escapes p.1 p.2) (hqs : ∀ q ∈ qs, Escapes q.1 q.2)
    (h : (ps.map (·.1)).flatten ++ '"' :: r = (qs.map (·.1)).flatten ++ '"' :: s) :
    ps.map (·.2) = qs.map (·.2) ∧ r = s := by
  have hquote : ∀ {p : List Char} {c : Char} {t u : List Char}, Escapes p c →
      '"' :: t ≠ p ++ u := by
    intro p c t u hp heq
    cases hp <;> grind
  induction ps generalizing qs with
  | nil =>
    cases qs with
    | nil => exact ⟨rfl, (List.cons.inj h).2⟩
    | cons q qs =>
      simp only [List.map_nil, List.flatten_nil, List.nil_append, List.map_cons, List.flatten_cons,
        List.append_assoc] at h
      exact absurd h (hquote (hqs q List.mem_cons_self))
  | cons p ps ih =>
    obtain ⟨hp, hps⟩ := List.forall_mem_cons.mp hps
    cases qs with
    | nil =>
      simp only [List.map_nil, List.flatten_nil, List.nil_append, List.map_cons, List.flatten_cons,
        List.append_assoc] at h
      exact absurd h.symm (hquote hp)
    | cons q qs =>
      obtain ⟨hq, hqs⟩ := List.forall_mem_cons.mp hqs
      simp only [List.map_cons, List.flatten_cons, List.append_assoc] at h
      obtain ⟨hc, h⟩ := hp.prefix_free hq h
      obtain ⟨hcs, hr⟩ := ih hps hqs h
      exact ⟨by rw [List.map_cons, List.map_cons, hc, hcs], hr⟩

/-- Whether an integer cannot run on into a text. -/
def Ends (cs : List Char) : Prop := ∀ c ∈ cs.head?, c.isDigit = false

theorem ends_nil : Ends [] := nofun

theorem ends_cons {c : Char} (h : c.isDigit = false) (cs : List Char) : Ends (c :: cs) := by
  simpa [Ends] using h

namespace IsDigits

variable {ds es r s : List Char}

theorem exists_cons (h : IsDigits ds) : ∃ d t, ds = d :: t ∧ d.isDigit = true := by
  obtain ⟨d, t, rfl⟩ := List.exists_cons_of_ne_nil h.ne_nil
  exact ⟨d, t, rfl, h.digits d List.mem_cons_self⟩

theorem cons_ne_append (h : IsDigits ds) {c : Char} (hc : c.isDigit = false) :
    c :: r ≠ ds ++ s := by
  obtain ⟨d, t, rfl, hd⟩ := h.exists_cons
  rintro heq
  rw [(List.cons.inj heq).1, hd] at hc
  cases hc

theorem takeWhile_append (h : IsDigits ds) (hr : Ends r) :
    (ds ++ r).takeWhile Char.isDigit = ds := by
  rw [List.takeWhile_append_of_pos h.digits]
  cases r with
  | nil => simp
  | cons c r => rw [List.takeWhile_cons_of_neg (by simp [hr c rfl]), List.append_nil]

/-- Digits end where no digit follows. -/
theorem decodes (hd : IsDigits ds) (he : IsDigits es) (hr : Ends r) (hs : Ends s)
    (h : ds ++ r = es ++ s) : ds = es ∧ r = s := by
  have hsame := congrArg (List.takeWhile Char.isDigit) h
  rw [hd.takeWhile_append hr, he.takeWhile_append hs] at hsame
  subst hsame
  exact ⟨rfl, List.append_cancel_left h⟩

end IsDigits

/-- Whether a text for `a` ends by itself: it can be told from what follows, and what it
stands for too. -/
def Decodes {α : Type} (D : List Char → α → Prop) (cs : List Char) (a : α) : Prop :=
  ∀ ds b r s, D ds b → Ends r → Ends s → cs ++ r = ds ++ s → a = b ∧ r = s

theorem separated_cons_append (x : List Char) (xs : List (List Char)) (rest : List Char) :
    separated (x :: xs) ++ rest =
      x ++ if xs.isEmpty then rest else ',' :: ' ' :: (separated xs ++ rest) := by
  cases xs with
  | nil => simp [separated]
  | cons y xs => simp [separated, List.intercalate_cons_cons]

section
variable {α : Type} {D : List Char → α → Prop} {xs ys : List (List Char × α)} {c : Char}
  {r s : List Char}

/-- Items that end by themselves are told apart, and so is the end of all. -/
theorem items_decode (hc : c.isDigit = false) (hcomma : c ≠ ',')
    (hstart : ∀ cs a, D cs a → ∃ d t, cs = d :: t ∧ d ≠ c)
    (hxs : ∀ x ∈ xs, D x.1 x.2 ∧ Decodes D x.1 x.2) (hys : ∀ y ∈ ys, D y.1 y.2)
    (h : separated (xs.map (·.1)) ++ c :: r = separated (ys.map (·.1)) ++ c :: s) :
    xs.map (·.2) = ys.map (·.2) ∧ r = s := by
  have hends : ∀ (p : Prop) [Decidable p] (t u : List Char),
      Ends (if p then c :: t else ',' :: ' ' :: u) := by
    intro p _ t u
    split
    · exact ends_cons hc t
    · exact ends_cons rfl _
  have hfirst : ∀ (x : List Char × α) (t u : List Char), D x.1 x.2 → c :: t ≠ x.1 ++ u := by
    intro x t u hx heq
    obtain ⟨d, v, hd, hne⟩ := hstart _ _ hx
    rw [hd] at heq
    exact hne (List.cons.inj heq).1.symm
  induction xs generalizing ys with
  | nil =>
    cases ys with
    | nil => exact ⟨rfl, (List.cons.inj h).2⟩
    | cons y ys =>
      rw [List.map_cons, separated_cons_append] at h
      exact absurd h (hfirst y _ _ (hys y List.mem_cons_self))
  | cons x xs ih =>
    obtain ⟨⟨hx, hdecodes⟩, hxs⟩ := List.forall_mem_cons.mp hxs
    cases ys with
    | nil =>
      rw [List.map_cons, separated_cons_append] at h
      exact absurd h.symm (hfirst x _ _ hx)
    | cons y ys =>
      obtain ⟨hy, hys⟩ := List.forall_mem_cons.mp hys
      rw [List.map_cons, List.map_cons, separated_cons_append, separated_cons_append] at h
      obtain ⟨hsame, h⟩ := hdecodes _ _ _ _ hy (hends _ _ _) (hends _ _ _) h
      cases xs with
      | nil =>
        cases ys with
        | nil => exact ⟨by simp [hsame], (List.cons.inj h).2⟩
        | cons y' ys => exact absurd (List.cons.inj h).1 hcomma
      | cons x' xs =>
        cases ys with
        | nil => exact absurd (List.cons.inj h).1.symm hcomma
        | cons y' ys =>
          obtain ⟨hrest, hr⟩ := ih hxs hys (List.cons.inj (List.cons.inj h).2).2
          exact ⟨by rw [List.map_cons, hrest, hsame]; rfl, hr⟩

end

namespace Denotes

variable {cs : List Char} {a : Literal}

theorem exists_start (h : Denotes cs a) : ∃ d t, cs = d :: t ∧ d ≠ ']' ∧ d ≠ '\x7d' := by
  cases h with
  | nat hds =>
    obtain ⟨d, t, rfl, hdigit⟩ := hds.exists_cons
    refine ⟨d, t, rfl, ?_, ?_⟩ <;> rintro rfl <;> exact absurd hdigit (by decide)
  | _ => exact ⟨_, _, rfl, by decide, by decide⟩

/-- What an entry of a dict stands for. -/
def Entry (cs : List Char) (p : Literal × Literal) : Prop :=
  ∃ k v, cs = entry k v ∧ Denotes k p.1 ∧ Denotes v p.2

/-- An entry ends by itself if its key and its value do. -/
theorem decodes_entry {k v : List Char} {a b : Literal} (hk : Decodes Denotes k a)
    (hv : Decodes Denotes v b) : Decodes Entry (entry k v) (a, b) := by
  rintro _ ⟨a', b'⟩ r s ⟨k', v', rfl, hk', hv'⟩ hr hs heq
  simp only [entry, List.append_assoc, List.cons_append] at heq
  obtain ⟨rfl, heq⟩ := hk _ _ _ _ hk' (ends_cons rfl _) (ends_cons rfl _) heq
  obtain ⟨rfl, rfl⟩ := hv _ _ _ _ hv' hr hs (List.cons.inj (List.cons.inj heq).2).2
  exact ⟨rfl, rfl⟩

theorem Entry.exists_start {p : Literal × Literal} (h : Entry cs p) :
    ∃ d t, cs = d :: t ∧ d ≠ '\x7d' := by
  obtain ⟨k, v, rfl, hk, -⟩ := h
  obtain ⟨d, t, rfl, -, hd⟩ := hk.exists_start
  exact ⟨d, _, rfl, hd⟩

/-- A set is never read as a dict: what stands behind the first item tells them apart. -/
theorem set_ne_dict {items : List (List Char × Literal)}
    {entries : List ((List Char × Literal) × (List Char × Literal))} {r s : List Char}
    (hne : items ≠ []) (hitems : ∀ i ∈ items, Denotes i.1 i.2)
    (hfirst : ∀ i ∈ items, ∀ e ∈ entries, ∀ t u, Ends t → Ends u → i.1 ++ t = e.1.1 ++ u → t = u) :
    separated (items.map (·.1)) ++ '\x7d' :: r ≠
      separated (entries.map fun e => entry e.1.1 e.2.1) ++ '\x7d' :: s := by
  intro heq
  obtain ⟨i, items, rfl⟩ := List.exists_cons_of_ne_nil hne
  rw [List.map_cons, separated_cons_append] at heq
  cases entries with
  | nil =>
    obtain ⟨d, t, hd, -, hbrace⟩ := (hitems i List.mem_cons_self).exists_start
    rw [hd] at heq
    exact hbrace (List.cons.inj heq).1
  | cons e entries =>
    rw [List.map_cons, separated_cons_append, entry, List.append_assoc, List.cons_append] at heq
    have hends : Ends (if (items.map (·.1)).isEmpty then '\x7d' :: r
        else ',' :: ' ' :: (separated (items.map (·.1)) ++ '\x7d' :: r)) := by
      split <;> exact ends_cons rfl _
    have hrest := hfirst i List.mem_cons_self e List.mem_cons_self _ _ hends (ends_cons rfl _) heq
    split at hrest <;> exact absurd (List.cons.inj hrest).1 (by decide)

/-- A literal ends by itself, but for the digits of an integer. -/
theorem decodes (h : Denotes cs a) : Decodes Denotes cs a := by
  induction h with
  | none | true | false | emptySet =>
    intro ds b r s hb _ _ heq
    cases hb with
    | nat hd => exact absurd heq (hd.cons_ne_append rfl)
    | _ => simp_all
  | nat hds =>
    intro es b r s hb hr hs heq
    cases hb with
    | nat hes =>
      obtain ⟨rfl, rfl⟩ := hds.decodes hes.toIsDigits hr hs heq
      exact ⟨rfl, rfl⟩
    | _ => exact absurd heq.symm (hds.cons_ne_append rfl)
  | neg hds =>
    intro es b r s hb hr hs heq
    cases hb with
    | nat hes => exact absurd heq (hes.cons_ne_append rfl)
    | neg hes =>
      obtain ⟨rfl, rfl⟩ := hds.decodes hes.toIsDigits hr hs (List.cons.inj heq).2
      exact ⟨rfl, rfl⟩
    | _ => simp_all
  | str hps =>
    intro es b r s hb _ _ heq
    cases hb with
    | nat hes => exact absurd heq (hes.cons_ne_append rfl)
    | str hqs =>
      simp only [List.cons_append, List.append_assoc, List.nil_append, List.cons.injEq] at heq
      obtain ⟨hsame, rfl⟩ := quoted_decodes hps hqs heq.2
      exact ⟨by rw [hsame], rfl⟩
    | _ => simp_all
  | list hitems ih =>
    intro es b r s hb _ _ heq
    cases hb with
    | nat hes => exact absurd heq (hes.cons_ne_append rfl)
    | list hothers =>
      simp only [List.cons_append, List.append_assoc, List.nil_append, List.cons.injEq] at heq
      obtain ⟨hsame, rfl⟩ := items_decode rfl (by decide)
        (fun _ _ h => h.exists_start.imp fun _ => Exists.imp fun _ h => ⟨h.1, h.2.1⟩)
        (fun i hi => ⟨hitems i hi, ih i hi⟩) hothers heq.2
      exact ⟨by rw [hsame], rfl⟩
    | _ => simp_all
  | set hne hitems ih =>
    intro es b r s hb _ _ heq
    cases hb with
    | nat hes => exact absurd heq (hes.cons_ne_append rfl)
    | set _ hothers =>
      simp only [List.cons_append, List.append_assoc, List.nil_append, List.cons.injEq] at heq
      obtain ⟨hsame, rfl⟩ := items_decode rfl (by decide)
        (fun _ _ h => h.exists_start.imp fun _ => Exists.imp fun _ h => ⟨h.1, h.2.2⟩)
        (fun i hi => ⟨hitems i hi, ih i hi⟩) hothers heq.2
      exact ⟨by rw [hsame], rfl⟩
    | dict hkeys =>
      simp only [List.cons_append, List.append_assoc, List.nil_append, List.cons.injEq] at heq
      exact absurd heq.2 (set_ne_dict hne hitems fun i hi e he t u ht hu h =>
        (ih i hi _ _ _ _ (hkeys e he) ht hu h).2)
    | _ => simp_all
  | @dict entries hkeys hvalues ihkeys ihvalues =>
    intro es b r s hb _ _ heq
    cases hb with
    | nat hes => exact absurd heq (hes.cons_ne_append rfl)
    | set hne hitems =>
      simp only [List.cons_append, List.append_assoc, List.nil_append, List.cons.injEq] at heq
      exact absurd heq.2.symm (set_ne_dict hne hitems fun i hi e he t u ht hu h =>
        (ihkeys e he _ _ _ _ (hitems i hi) hu ht h.symm).2.symm)
    | @dict others hothers hothers' =>
      simp only [List.cons_append, List.append_assoc, List.nil_append, List.cons.injEq] at heq
      have hxs : ∀ x ∈ entries.map fun e => (entry e.1.1 e.2.1, (e.1.2, e.2.2)),
          Entry x.1 x.2 ∧ Decodes Entry x.1 x.2 :=
        List.forall_mem_map.mpr fun e he => ⟨⟨_, _, rfl, hkeys e he, hvalues e he⟩,
          decodes_entry (ihkeys e he) (ihvalues e he)⟩
      have hys : ∀ y ∈ others.map fun e => (entry e.1.1 e.2.1, (e.1.2, e.2.2)), Entry y.1 y.2 :=
        List.forall_mem_map.mpr fun e he => ⟨_, _, rfl, hothers e he, hothers' e he⟩
      have hsame := items_decode (c := '\x7d') (r := r) (s := s) rfl (by decide)
        (fun _ _ h => h.exists_start) hxs hys
      simp only [List.map_map, Function.comp_def] at hsame
      obtain ⟨hpairs, rfl⟩ := hsame heq.2
      exact ⟨by rw [hpairs], rfl⟩
    | _ => simp_all

/-- A text denotes at most one literal. -/
theorem unique {b : Literal} (ha : Denotes cs a) (hb : Denotes cs b) : a = b :=
  (ha.decodes cs b [] [] hb ends_nil ends_nil rfl).1

end Denotes

/-! ## The texts of literals -/

theorem eq_of_toDigits_eq_zero_cons {n : Nat} {t : List Char} (h : Nat.toDigits 10 n = '0' :: t) :
    n = 0 := by
  induction n using Nat.strongRecOn generalizing t with
  | ind n ih =>
    by_cases hn : n < 10
    · rw [Nat.toDigits_of_lt_base hn] at h
      have : ∀ m < 10, Nat.digitChar m = '0' → m = 0 := by decide
      exact this n hn (List.cons.inj h).1
    · rw [Nat.toDigits_of_base_le (by decide) (by omega)] at h
      obtain ⟨d, u, hdigits⟩ := List.exists_cons_of_ne_nil (Nat.toDigits_ne_nil (n := n / 10) (b := 10))
      rw [hdigits, List.cons_append] at h
      have := ih (n / 10) (by omega) (by rw [hdigits, (List.cons.inj h).1])
      omega

theorem isDecimal_toDigits (n : Nat) : IsDecimal (Nat.toDigits 10 n) where
  ne_nil := Nat.toDigits_ne_nil
  digits _ hd := Nat.isDigit_of_mem_toDigits (by decide) (by decide) hd
  leading h := by
    obtain ⟨t, ht⟩ := List.head?_eq_some_iff.mp h
    rw [eq_of_toDigits_eq_zero_cons ht, Nat.toDigits_zero]

theorem denotes_int (n : Int) : Denotes (toString n).toList (.int n) := by
  cases n with
  | ofNat n =>
    have h := Denotes.nat (isDecimal_toDigits n)
    rwa [Nat.ofDigitChars_ten_toDigits, ← Nat.toList_repr] at h
  | negSucc n =>
    have h := Denotes.neg (isDecimal_toDigits (n + 1))
    rw [Nat.ofDigitChars_ten_toDigits, ← Nat.toList_repr] at h
    show Denotes ("-" ++ Nat.repr (n + 1)).toList _
    rw [String.toList_append]
    exact h

theorem hexDigit?_digitChar : ∀ n < 16, Json.hexDigit? (Nat.digitChar n) = some n := by decide

/-- What a character is written as stands for that character. -/
theorem escapes_escape (c : Char) : Escapes (Text.escape c) c := by
  unfold Text.escape
  split
  · exact .short rfl
  · exact .short rfl
  · exact .short rfl
  · exact .short rfl
  · exact .short rfl
  · split
    · next hcontrol =>
      have hrange : c.toNat < 256 := by
        simp only [Text.isControl, Bool.or_eq_true, Bool.and_eq_true, decide_eq_true_eq] at hcontrol
        omega
      have h := Escapes.hex (hexDigit?_digitChar (c.toNat / 16 % 16) (Nat.mod_lt _ (by decide)))
        (hexDigit?_digitChar (c.toNat % 16) (Nat.mod_lt _ (by decide)))
      rwa [show 16 * (c.toNat / 16 % 16) + c.toNat % 16 = c.toNat by omega,
        Char.ofNat_toNat] at h
    · exact .plain ‹_› ‹_› ‹_› ‹_›

theorem denotes_quote (s : String) : Denotes (Text.quote s).toList (.str s) := by
  have hpieces : ∀ p ∈ s.toList.map fun c => (Text.escape c, c), Escapes p.1 p.2 :=
    List.forall_mem_map.mpr fun c _ => escapes_escape c
  have h := Denotes.str hpieces
  simp only [List.map_map, Function.comp_def, List.map_id', String.ofList_toList] at h
  rwa [Text.quote, String.toList_ofList, Text.quoteChars, List.flatMap_def]

theorem texts_eq_map (ls : List Literal) : Literal.texts ls = ls.map Literal.text := by
  induction ls with
  | nil => rfl
  | cons l ls ih => rw [Literal.texts, ih, List.map_cons]

theorem pairTexts_eq_map (ps : List (Literal × Literal)) :
    Literal.pairTexts ps = ps.map fun p => p.1.text ++ ": " ++ p.2.text := by
  induction ps with
  | nil => rfl
  | cons p ps ih => rw [Literal.pairTexts, ih, List.map_cons]

theorem toList_bracketed (ls : List Literal) : (bracketed (Literal.texts ls)).toList =
    '[' :: (separated (ls.map fun l => l.text.toList) ++ [']']) := by
  simp [bracketed, texts_eq_map, String.toList_intercalate, separated, Function.comp_def]

theorem toList_braced (ls : List Literal) : (braced (Literal.texts ls)).toList =
    '\x7b' :: (separated (ls.map fun l => l.text.toList) ++ ['\x7d']) := by
  simp [braced, texts_eq_map, String.toList_intercalate, separated, Function.comp_def]

theorem toList_pairs (ps : List (Literal × Literal)) : (braced (Literal.pairTexts ps)).toList =
    '\x7b' :: (separated (ps.map fun p => entry p.1.text.toList p.2.text.toList) ++ ['\x7d']) := by
  simp [braced, pairTexts_eq_map, String.toList_intercalate, separated, entry, Function.comp_def]

section
variable {items : List Literal} (h : ∀ l ∈ items, Denotes l.text.toList l)
include h

theorem denotes_bracketed : Denotes (bracketed (Literal.texts items)).toList (.list items) := by
  have hitems : ∀ i ∈ items.map fun l => (l.text.toList, l), Denotes i.1 i.2 :=
    List.forall_mem_map.mpr h
  have hlist := Denotes.list hitems
  simp only [List.map_map, Function.comp_def, List.map_id'] at hlist
  rwa [toList_bracketed]

theorem denotes_braced (hne : items ≠ []) :
    Denotes (braced (Literal.texts items)).toList (.set items) := by
  have hitems : ∀ i ∈ items.map fun l => (l.text.toList, l), Denotes i.1 i.2 :=
    List.forall_mem_map.mpr h
  have hset := Denotes.set (by simpa using hne) hitems
  simp only [List.map_map, Function.comp_def, List.map_id'] at hset
  rwa [toList_braced]

end

theorem denotes_pairs {pairs : List (Literal × Literal)}
    (hk : ∀ p ∈ pairs, Denotes p.1.text.toList p.1) (hv : ∀ p ∈ pairs, Denotes p.2.text.toList p.2) :
    Denotes (braced (Literal.pairTexts pairs)).toList (.dict pairs) := by
  have hkeys : ∀ e ∈ pairs.map fun p => ((p.1.text.toList, p.1), (p.2.text.toList, p.2)),
      Denotes e.1.1 e.1.2 := List.forall_mem_map.mpr hk
  have hdict := Denotes.dict hkeys (List.forall_mem_map.mpr hv)
  simp only [List.map_map, Function.comp_def, List.map_id'] at hdict
  rwa [toList_pairs]

mutual

/-- Whether a literal holds no floats. -/
def floatless : Literal → Bool
  | .float _ | .complex _ _ => false
  | .list items | .set items => allFloatless items
  | .dict pairs => pairsFloatless pairs
  | _ => true
termination_by structural l => l

/-- Whether the literals of a list hold no floats. -/
def allFloatless : List Literal → Bool
  | [] => true
  | l :: ls => floatless l && allFloatless ls
termination_by structural ls => ls

/-- Whether the pairs of a list hold no floats. -/
def pairsFloatless : List (Literal × Literal) → Bool
  | [] => true
  | (k, v) :: ps => floatless k && floatless v && pairsFloatless ps
termination_by structural ps => ps

end

mutual

theorem denotes_text : ∀ l : Literal, floatless l = true → Denotes l.text.toList l
  | .none, _ => .none
  | .bool true, _ => .true
  | .bool false, _ => .false
  | .int n, _ => denotes_int n
  | .str s, _ => denotes_quote s
  | .list items, h => denotes_bracketed (denotes_texts items h)
  | .set [], _ => .emptySet
  | .set (item :: items), h =>
    denotes_braced (denotes_texts (item :: items) h) (List.cons_ne_nil _ _)
  | .dict pairs, h =>
    denotes_pairs (fun p hp => (denotes_pairTexts pairs h p hp).1)
      (fun p hp => (denotes_pairTexts pairs h p hp).2)
termination_by structural l => l

theorem denotes_texts : ∀ ls : List Literal, allFloatless ls = true →
    ∀ l ∈ ls, Denotes l.text.toList l
  | [], _ => nofun
  | l :: ls, h => by
    obtain ⟨hl, hls⟩ := Bool.and_eq_true_iff.mp h
    exact List.forall_mem_cons.mpr ⟨denotes_text l hl, denotes_texts ls hls⟩
termination_by structural ls => ls

theorem denotes_pairTexts : ∀ ps : List (Literal × Literal), pairsFloatless ps = true →
    ∀ p ∈ ps, Denotes p.1.text.toList p.1 ∧ Denotes p.2.text.toList p.2
  | [], _ => nofun
  | (k, v) :: ps, h => by
    obtain ⟨hkv, hps⟩ := Bool.and_eq_true_iff.mp h
    obtain ⟨hk, hv⟩ := Bool.and_eq_true_iff.mp hkv
    exact List.forall_mem_cons.mpr ⟨⟨denotes_text k hk, denotes_text v hv⟩,
      denotes_pairTexts ps hps⟩
termination_by structural ps => ps

end

/-- The text of a literal without floats stands in one line, and it is read as that
literal and no other: so two such literals never have one text. -/
theorem literal_reads_back (l : Literal) (h : floatless l = true) :
    (∀ c ∈ l.text.toList, Text.isControl c = false) ∧
    (∀ m, Denotes l.text.toList m ↔ m = l) ∧
    ∀ m, floatless m = true → m.text = l.text → m = l := by
  have hl := denotes_text l h
  have hunique (m : Literal) (hm : Denotes l.text.toList m) : m = l := hm.unique hl
  refine ⟨(Text.isSafe_iff.mp (Literal.isSafe_text l)).1, fun m => ⟨hunique m, ?_⟩, ?_⟩
  · rintro rfl
    exact hl
  · intro m hm htext
    exact hunique m (htext ▸ denotes_text m hm)

/-- Brackets, commas and escapes inside a text, both ranges of control characters, and the
three forms with braces. -/
theorem literal_reads_back_nested :
    let l := Literal.dict [(.str "\\\"], \n\t\x85\x1f\x7d", .list [.set [], .dict [], .int (-10)]),
      (.int 0, .set [.none, .bool true, .str "set()"])]
    floatless l = true ∧ (∀ c ∈ l.text.toList, Text.isControl c = false) ∧
      (∀ m, Denotes l.text.toList m ↔ m = l) ∧ ∀ m, floatless m = true → m.text = l.text → m = l :=
  ⟨by decide, literal_reads_back _ (by decide)⟩

end WrapGen.Grammar
