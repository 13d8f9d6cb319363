/-!
# Words

The words of a text are its maximal runs of characters that are no separators.

Main statements: `mem_words` (a word is not empty and holds no separator) and
`words_eq_nil_iff` (a text without words holds separators only).
-/
namespace WrapGen.Text

/-- Puts the run `w` in front of the words `ws`, unless it is empty. -/
def consWord (w : List Char) (ws : List (List Char)) : List (List Char) :=
  if w.isEmpty then ws else w :: ws

/-- The run of other characters that a text starts with, and the words after it. -/
def leadingRun (separates : Char → Bool) : List Char → List Char × List (List Char)
  | [] => ([], [])
  | c :: cs =>
    let (w, ws) := leadingRun separates cs
    if separates c then ([], consWord w ws) else (c :: w, ws)

/-- The words of a text, in order. -/
def words (separates : Char → Bool) (cs : List Char) : List (List Char) :=
  consWord (leadingRun separates cs).1 (leadingRun separates cs).2

theorem mem_consWord {v w : List Char} {ws : List (List Char)} (h : v ∈ consWord w ws) :
    (v = w ∧ w ≠ []) ∨ v ∈ ws := by
  cases w with
  | nil => exact .inr (by simpa [consWord] using h)
  | cons c w => simpa [consWord] using h

theorem consWord_eq_nil_iff (w : List Char) (ws : List (List Char)) :
    consWord w ws = [] ↔ w = [] ∧ ws = [] := by
  cases w <;> simp [consWord]

theorem leadingRun_spec (separates : Char → Bool) (cs : List Char) :
    (∀ c ∈ (leadingRun separates cs).1, separates c = false) ∧
      ∀ w ∈ (leadingRun separates cs).2, w ≠ [] ∧ ∀ c ∈ w, separates c = false := by
  induction cs with
  | nil => simp [leadingRun]
  | cons c cs ih =>
    by_cases h : separates c = true
    · simp only [leadingRun, h, if_true]
      refine ⟨by simp, fun w hw => ?_⟩
      rcases mem_consWord hw with ⟨rfl, hne⟩ | hw
      · exact ⟨hne, ih.1⟩
      · exact ih.2 w hw
    · simp only [leadingRun, h]
      exact ⟨by simpa [h] using ih.1, ih.2⟩

theorem mem_words {separates : Char → Bool} {cs w : List Char} (h : w ∈ words separates cs) :
    w ≠ [] ∧ ∀ c ∈ w, separates c = false := by
  rcases mem_consWord h with ⟨rfl, hne⟩ | hw
  · exact ⟨hne, (leadingRun_spec separates cs).1⟩
  · exact (leadingRun_spec separates cs).2 w hw

theorem words_eq_nil_iff (separates : Char → Bool) (cs : List Char) :
    words separates cs = [] ↔ ∀ c ∈ cs, separates c = true := by
  induction cs with
  | nil => simp [words, leadingRun, consWord]
  | cons c cs ih =>
    simp only [words] at ih ⊢
    by_cases h : separates c = true
    · simp [leadingRun, h, consWord_eq_nil_iff] at ih ⊢
      exact ih
    · simp [leadingRun, h, consWord_eq_nil_iff]

end WrapGen.Text
