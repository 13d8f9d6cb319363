import Mathlib.Data.List.Chain
import WrapGen.Text.Blank

/-!
# Words of joined words

Words that are joined by a separator are read back one by one
(`words_intercalate`), so squeezing a text twice is squeezing it once.

`Spaced` says what a squeezed text looks like without mentioning words: no
blank at either end, no two blanks in a row, and no blank but the space.

* `squeeze_eq_self_iff`: the texts that squeezing leaves alone are the spaced ones.
* `squeeze_eq_nil_iff`: nothing is left exactly of a text of blanks.
-/
namespace WrapGen.Text

section
variable {f : Char → Bool} {w : List Char}

/-- A run without separators stays in front of what follows it. -/
theorem leadingRun_append (h : ∀ c ∈ w, f c = false) (cs : List Char) :
    leadingRun f (w ++ cs) = (w ++ (leadingRun f cs).1, (leadingRun f cs).2) := by
  induction w with
  | nil => rfl
  | cons c w ih =>
    have hc : f c = false := h c (by simp)
    have hw : ∀ c ∈ w, f c = false := fun d hd => h d (by simp [hd])
    simp [leadingRun, hc, ih hw]

theorem words_of_word (hne : w ≠ []) (h : ∀ c ∈ w, f c = false) : words f w = [w] := by
  have hr := leadingRun_append h []
  simp only [List.append_nil, leadingRun] at hr
  simp [words, hr, consWord, hne]

theorem words_append_separator {s : Char} (hne : w ≠ []) (h : ∀ c ∈ w, f c = false)
    (hs : f s = true) (cs : List Char) : words f (w ++ s :: cs) = w :: words f cs := by
  have hr := leadingRun_append h (s :: cs)
  simp only [leadingRun, hs, if_true, List.append_nil] at hr
  simp [words, hr, consWord, hne]

theorem words_cons_separator {s : Char} (hs : f s = true) (cs : List Char) :
    words f (s :: cs) = words f cs := by
  simp [words, leadingRun, hs, consWord]

/-- Joined words are read back one by one. -/
theorem words_intercalate {s : Char} (hs : f s = true) {ws : List (List Char)}
    (h : ∀ w ∈ ws, w ≠ [] ∧ ∀ c ∈ w, f c = false) : words f ([s].intercalate ws) = ws := by
  induction ws with
  | nil => rfl
  | cons w ws ih =>
    obtain ⟨hw, hc⟩ := h w (by simp)
    cases ws with
    | nil => rw [List.intercalate_singleton, words_of_word hw hc]
    | cons v vs =>
      rw [List.intercalate_cons_cons, List.append_assoc, List.singleton_append,
        words_append_separator hw hc hs, ih (fun x hx => h x (by simp [hx]))]

theorem mem_of_mem_leadingRun (cs : List Char) :
    (∀ c ∈ (leadingRun f cs).1, c ∈ cs) ∧ ∀ w ∈ (leadingRun f cs).2, ∀ c ∈ w, c ∈ cs := by
  induction cs with
  | nil => simp [leadingRun]
  | cons d cs ih =>
    obtain ⟨hrun, hrest⟩ := ih
    rw [leadingRun]
    by_cases hd : f d = true
    · simp only [hd, if_true]
      refine ⟨by simp, fun w hw c hc => List.mem_cons_of_mem d ?_⟩
      rcases mem_consWord hw with ⟨rfl, -⟩ | hw
      · exact hrun c hc
      · exact hrest w hw c hc
    · simp only [hd, Bool.false_eq_true, if_false]
      refine ⟨fun c hc => ?_, fun w hw c hc => List.mem_cons_of_mem d (hrest w hw c hc)⟩
      rcases List.mem_cons.mp hc with rfl | hc
      · exact List.mem_cons_self
      · exact List.mem_cons_of_mem d (hrun c hc)

/-- The words of a text hold its characters only. -/
theorem mem_of_mem_words {c : Char} {cs : List Char} (hw : w ∈ words f cs) (hc : c ∈ w) :
    c ∈ cs := by
  rcases mem_consWord hw with ⟨rfl, -⟩ | hw
  · exact (mem_of_mem_leadingRun cs).1 c hc
  · exact (mem_of_mem_leadingRun cs).2 w hw c hc

theorem mem_intercalate {s c : Char} {ws : List (List Char)} (h : c ∈ [s].intercalate ws) :
    c = s ∨ ∃ w ∈ ws, c ∈ w := by
  induction ws with
  | nil => cases h
  | cons w ws ih =>
    cases ws with
    | nil => exact Or.inr ⟨w, by simp, by simpa using h⟩
    | cons v vs =>
      rw [List.intercalate_cons_cons] at h
      simp only [List.append_assoc, List.mem_append, List.mem_singleton] at h
      rcases h with h | h | h
      · exact Or.inr ⟨w, by simp, h⟩
      · exact Or.inl h
      · rcases ih h with h | ⟨u, hu, hc⟩
        · exact Or.inl h
        · exact Or.inr ⟨u, List.mem_cons_of_mem w hu, hc⟩

end

/-! ## Squeezing -/

theorem words_squeeze (cs : List Char) : words isBlank (squeeze cs) = words isBlank cs :=
  words_intercalate (by decide) fun _ hw => mem_words hw

theorem squeeze_squeeze (cs : List Char) : squeeze (squeeze cs) = squeeze cs := by
  show [' '].intercalate (words isBlank (squeeze cs)) = _
  rw [words_squeeze]
  rfl

theorem squeeze_cons_blank {c : Char} (h : isBlank c = true) (cs : List Char) :
    squeeze (c :: cs) = squeeze cs := by
  unfold squeeze
  rw [words_cons_separator h]

theorem squeeze_eq_nil_iff (cs : List Char) :
    squeeze cs = [] ↔ ∀ c ∈ cs, isBlank c = true := by
  rw [← words_eq_nil_iff]
  constructor
  · intro h
    rw [← words_squeeze, h]
    rfl
  · intro h
    rw [squeeze, h]
    rfl

/-- Squeezing puts in nothing but spaces. -/
theorem mem_squeeze {c : Char} {cs : List Char} (h : c ∈ squeeze cs) : c = ' ' ∨ c ∈ cs := by
  rcases mem_intercalate h with hc | ⟨w, hw, hc⟩
  · exact Or.inl hc
  · exact Or.inr (mem_of_mem_words hw hc)

/-! ## Spaced texts -/

/-- No blank at either end, no two blanks in a row, and no blank but the space. -/
structure Spaced (cs : List Char) : Prop where
  first : ∀ c ∈ cs.head?, isBlank c = false
  last : ∀ c ∈ cs.getLast?, isBlank c = false
  apart : cs.IsChain fun a b => isBlank a = false ∨ isBlank b = false
  space : ∀ c ∈ cs, isBlank c = true → c = ' '

theorem spaced_of_word {w : List Char} (h : ∀ c ∈ w, isBlank c = false) : Spaced w where
  first c hc := h c (List.mem_of_mem_head? hc)
  last c hc := h c (List.mem_of_getLast? hc)
  apart := by
    induction w with
    | nil => exact .nil
    | cons c w ih =>
      cases w with
      | nil => exact .singleton c
      | cons d w => exact .cons_cons (Or.inl (h c (by simp))) (ih fun e he => h e (by simp [he]))
  space c hc hb := by
    rw [h c hc] at hb
    cases hb

/-- A word and a space in front keep a text spaced. -/
theorem Spaced.append_word {w cs : List Char} (hw : w ≠ []) (h : ∀ c ∈ w, isBlank c = false)
    (hne : cs ≠ []) (hs : Spaced cs) : Spaced (w ++ ' ' :: cs) := by
  have hword := spaced_of_word h
  refine ⟨?_, ?_, ?_, ?_⟩
  · intro c hc
    rw [List.head?_append_of_ne_nil _ hw] at hc
    exact hword.first c hc
  · intro c hc
    rw [List.getLast?_append_of_ne_nil _ (by simp), List.getLast?_cons_of_ne_nil hne] at hc
    exact hs.last c hc
  · refine List.isChain_append.mpr ⟨hword.apart, ?_, ?_⟩
    · obtain ⟨c, cs, rfl⟩ := List.exists_cons_of_ne_nil hne
      exact .cons_cons (Or.inr (hs.first c rfl)) hs.apart
    · intro c hc d _
      exact Or.inl (hword.last c hc)
  · intro c hc hb
    rcases List.mem_append.mp hc with hc | hc
    · exact hword.space c hc hb
    · rcases List.mem_cons.mp hc with hc | hc
      · exact hc
      · exact hs.space c hc hb

theorem spaced_squeeze (cs : List Char) : Spaced (squeeze cs) := by
  have hjoin : ∀ ws : List (List Char), (∀ w ∈ ws, w ≠ [] ∧ ∀ c ∈ w, isBlank c = false) →
      Spaced ([' '].intercalate ws) := by
    intro ws h
    induction ws with
    | nil => exact spaced_of_word (by simp)
    | cons w ws ih =>
      obtain ⟨hw, hc⟩ := h w (by simp)
      cases ws with
      | nil =>
        rw [List.intercalate_singleton]
        exact spaced_of_word hc
      | cons v vs =>
        rw [List.intercalate_cons_cons, List.append_assoc, List.singleton_append]
        refine Spaced.append_word hw hc ?_ (ih fun x hx => h x (by simp [hx]))
        intro hnil
        have hwords := words_intercalate (f := isBlank) (s := ' ') (by decide)
          (fun x hx => h x (List.mem_cons_of_mem w hx))
        rw [hnil] at hwords
        cases hwords
  exact hjoin _ fun _ hw => mem_words hw

/-- Behind its leading run, a text that is spaced to its end has a space in
front of each word. -/
theorem eq_append_of_spaced : ∀ {cs : List Char}, (∀ c ∈ cs.getLast?, isBlank c = false) →
    (cs.IsChain fun a b => isBlank a = false ∨ isBlank b = false) →
    (∀ c ∈ cs, isBlank c = true → c = ' ') →
    cs = (leadingRun isBlank cs).1 ++ (leadingRun isBlank cs).2.flatMap (' ' :: ·)
  | [], _, _, _ => rfl
  | [c], hlast, _, _ => by
    have hc : isBlank c = false := hlast c rfl
    simp [leadingRun, hc]
  | c :: d :: cs, hlast, hchain, hspace => by
    obtain ⟨hcd, hchain⟩ := List.isChain_cons_cons.mp hchain
    have ih := @eq_append_of_spaced (d :: cs)
      (fun e he => hlast e (by rwa [List.getLast?_cons_cons]))
      hchain (fun e he => hspace e (by simp [he]))
    cases hc : isBlank c with
    | false =>
      rw [leadingRun]
      simp only [hc, Bool.false_eq_true, if_false]
      rw [List.cons_append, ← ih]
    | true =>
      have hd : isBlank d = false := by
        rcases hcd with h | h
        · rw [hc] at h
          cases h
        · exact h
      -- the run behind the space is the word that starts with `d`
      have hne : (leadingRun isBlank (d :: cs)).1.isEmpty = false := by
        simp [leadingRun, hd]
      rw [leadingRun]
      simp only [hc, if_true, consWord, hne, Bool.false_eq_true, if_false]
      rw [List.nil_append, List.flatMap_cons, List.cons_append, ← ih, hspace c (by simp) hc]

theorem intercalate_eq_flatMap (s : Char) (w : List Char) (ws : List (List Char)) :
    [s].intercalate (w :: ws) = w ++ ws.flatMap (s :: ·) := by
  induction ws generalizing w with
  | nil => simp
  | cons v vs ih =>
    rw [List.intercalate_cons_cons, ih v, List.flatMap_cons]
    simp

/-- The texts that squeezing leaves alone. -/
theorem squeeze_eq_self_iff {cs : List Char} : squeeze cs = cs ↔ Spaced cs := by
  constructor
  · intro h
    rw [← h]
    exact spaced_squeeze cs
  · intro h
    cases cs with
    | nil => rfl
    | cons c cs =>
      have hc : isBlank c = false := h.first c rfl
      have hne : (leadingRun isBlank (c :: cs)).1.isEmpty = false := by
        simp [leadingRun, hc]
      unfold squeeze words consWord
      rw [if_neg (by rw [hne]; decide), intercalate_eq_flatMap,
        ← eq_append_of_spaced h.last h.apart h.space]

end WrapGen.Text
