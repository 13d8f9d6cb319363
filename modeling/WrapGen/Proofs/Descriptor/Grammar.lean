import WrapGen.Descriptor.Parser
import WrapGen.Proofs.Text.Words

/-!
# The grammar of descriptors

A descriptor is well formed (`WellFormed`) when its tokens and heads are names,
every application has an argument, and no path goes through more than
`maxNesting` applications. `compact` writes it with its delimiters and nothing
between them; `squeezeRuns` takes the blanks out of a text that do not matter,
run by run.

* `joined_segments`, `segments_joined`: cutting a text at its delimiters loses
  nothing, and finds every delimiter.
* `squeezeRuns_text`: the text of a well-named descriptor squeezes to its
  compact text.
-/
namespace WrapGen.Descriptor

open Text

/-! ## Names -/

/-- A name is not empty, holds no delimiter, and has single spaces between its words. -/
structure IsName (cs : List Char) : Prop where
  ne_nil : cs ≠ []
  undelimited : ∀ c ∈ cs, Delimiter.ofChar? c = none
  spaced : Spaced cs

theorem isName_of_word {cs : List Char} (hne : cs ≠ [])
    (h : (cs.all fun c => (Delimiter.ofChar? c).isNone && !isBlank c) = true) : IsName cs := by
  have hc : ∀ c ∈ cs, Delimiter.ofChar? c = none ∧ isBlank c = false := by
    simpa using h
  exact ⟨hne, fun c hm => (hc c hm).1, spaced_of_word fun c hm => (hc c hm).2⟩

theorem undelimited_squeeze {run : List Char} (h : ∀ c ∈ run, Delimiter.ofChar? c = none) :
    ∀ c ∈ squeeze run, Delimiter.ofChar? c = none := by
  intro c hc
  rcases mem_squeeze hc with rfl | hc
  · rfl
  · exact h c hc

/-- A run of a text holds the name that it squeezes to. -/
theorem isName_of_nameOf {run : List Char} {name : String}
    (hrun : ∀ c ∈ run, Delimiter.ofChar? c = none) (h : nameOf run = .ok name) :
    name.toList = squeeze run ∧ IsName name.toList := by
  unfold nameOf at h
  split at h
  · cases h
  · rename_i hne
    cases h
    rw [String.toList_ofList]
    exact ⟨rfl, hne, undelimited_squeeze hrun, spaced_squeeze run⟩

theorem nameOf_of_isName {name : String} (h : IsName name.toList) :
    nameOf name.toList = .ok name := by
  unfold nameOf
  rw [squeeze_eq_self_iff.mpr h.spaced]
  split
  · rename_i hnil
    exact absurd hnil h.ne_nil
  · rw [String.ofList_toList]

theorem nameOf_squeeze (run : List Char) : nameOf (squeeze run) = nameOf run := by
  unfold nameOf
  rw [squeeze_squeeze]

/-! ## Well-formed descriptors -/

mutual

/-- Tokens and heads are names, and every application has an argument. -/
def Named : Descriptor → Prop
  | .token t => IsName t.toList
  | .applied head args => IsName head.toList ∧ args ≠ [] ∧ AllNamed args
termination_by structural d => d

/-- `Named` of every descriptor of a list. -/
def AllNamed : List Descriptor → Prop
  | [] => True
  | d :: ds => d.Named ∧ AllNamed ds
termination_by structural ds => ds

end

mutual

/-- The number of applications on the longest path. -/
def nesting : Descriptor → Nat
  | .token _ => 0
  | .applied _ args => nestingAll args + 1
termination_by structural d => d

/-- The greatest `nesting` of the descriptors of a list. -/
def nestingAll : List Descriptor → Nat
  | [] => 0
  | d :: ds => max d.nesting (nestingAll ds)
termination_by structural ds => ds

end

/-- What the grammar of descriptors allows. -/
structure WellFormed (d : Descriptor) : Prop where
  named : d.Named
  nesting : d.nesting ≤ maxNesting

theorem allNamed_iff {ds : List Descriptor} : AllNamed ds ↔ ∀ d ∈ ds, d.Named := by
  induction ds with
  | nil => simp [AllNamed]
  | cons d ds ih => simp [AllNamed, ih]

theorem nestingAll_le_iff {ds : List Descriptor} {n : Nat} :
    nestingAll ds ≤ n ↔ ∀ d ∈ ds, d.nesting ≤ n := by
  induction ds with
  | nil => simp [nestingAll]
  | cons d ds ih => simp only [nestingAll, Nat.max_le, ih, List.forall_mem_cons]

/-! ## Compact texts -/

mutual

/-- The text of a descriptor with nothing around its delimiters. -/
def compact : Descriptor → List Char
  | .token t => t.toList
  | .applied head args => head.toList ++ '<' :: ([','].intercalate (compactAll args) ++ ['>'])
termination_by structural d => d

/-- The compact texts of the descriptors of a list. -/
def compactAll : List Descriptor → List (List Char)
  | [] => []
  | d :: ds => d.compact :: compactAll ds
termination_by structural ds => ds

end

/-! ## Texts cut at their delimiters -/

/-- The character of a delimiter. -/
def Delimiter.char : Delimiter → Char
  | opening => '<'
  | comma => ','
  | closing => '>'

theorem Delimiter.ofChar?_char (d : Delimiter) : ofChar? d.char = some d := by
  cases d <;> rfl

theorem Delimiter.char_of_ofChar? {c : Char} {d : Delimiter} (h : ofChar? c = some d) :
    c = d.char := by
  unfold ofChar? at h
  split at h
  · cases h; rfl
  · cases h; rfl
  · cases h; rfl
  · cases h

/-- The text of delimiters and the runs after them. -/
def joinedAfter (rest : List (Delimiter × List Char)) : List Char :=
  rest.flatMap fun s => s.1.char :: s.2

/-- Delimiters with the runs after them squeezed. -/
def squeezeAfter (rest : List (Delimiter × List Char)) : List (Delimiter × List Char) :=
  rest.map fun s => (s.1, squeeze s.2)

/-- A text without blanks that do not matter: every run between delimiters is squeezed. -/
def squeezeRuns (cs : List Char) : List Char :=
  squeeze (segments cs).1 ++ joinedAfter (squeezeAfter (segments cs).2)

theorem segments_append {run : List Char} (h : ∀ c ∈ run, Delimiter.ofChar? c = none)
    (cs : List Char) : segments (run ++ cs) = (run ++ (segments cs).1, (segments cs).2) := by
  induction run with
  | nil => rfl
  | cons c run ih =>
    have hc : Delimiter.ofChar? c = none := h c (by simp)
    rw [List.cons_append, segments, ih fun d hd => h d (by simp [hd])]
    simp only [hc, List.cons_append]

theorem segments_cons_char (d : Delimiter) (cs : List Char) :
    segments (d.char :: cs) = ([], (d, (segments cs).1) :: (segments cs).2) := by
  rw [segments]
  simp only [Delimiter.ofChar?_char]

/-- Nothing is lost. -/
theorem joined_segments (cs : List Char) :
    (segments cs).1 ++ joinedAfter (segments cs).2 = cs := by
  induction cs with
  | nil => rfl
  | cons c cs ih =>
    rw [segments]
    cases h : Delimiter.ofChar? c with
    | none => simp [ih]
    | some d =>
      simp only [joinedAfter, List.flatMap_cons, List.nil_append] at ih ⊢
      rw [List.cons_append, ih, Delimiter.char_of_ofChar? h]

/-- Runs hold no delimiter. -/
theorem undelimited_segments (cs : List Char) :
    (∀ c ∈ (segments cs).1, Delimiter.ofChar? c = none) ∧
      ∀ s ∈ (segments cs).2, ∀ c ∈ s.2, Delimiter.ofChar? c = none := by
  induction cs with
  | nil => simp [segments]
  | cons c cs ih =>
    rw [segments]
    cases h : Delimiter.ofChar? c with
    | none => exact ⟨by simpa [h] using ih.1, ih.2⟩
    | some d =>
      refine ⟨by simp, fun s hs => ?_⟩
      rcases List.mem_cons.mp hs with rfl | hs
      · exact ih.1
      · exact ih.2 s hs

/-- Joined runs are cut where they were joined. -/
theorem segments_joined {run : List Char} {rest : List (Delimiter × List Char)}
    (hrun : ∀ c ∈ run, Delimiter.ofChar? c = none)
    (hrest : ∀ s ∈ rest, ∀ c ∈ s.2, Delimiter.ofChar? c = none) :
    segments (run ++ joinedAfter rest) = (run, rest) := by
  induction rest generalizing run with
  | nil => rw [segments_append hrun]; simp [joinedAfter, segments]
  | cons s rest ih =>
    have hs : joinedAfter (s :: rest) = s.1.char :: (s.2 ++ joinedAfter rest) := rfl
    rw [segments_append hrun, hs, segments_cons_char,
      ih (hrest s (by simp)) fun t ht => hrest t (by simp [ht])]
    simp

/-- A squeezed text has the squeezed runs. -/
theorem segments_squeezeRuns (cs : List Char) :
    segments (squeezeRuns cs) = (squeeze (segments cs).1, squeezeAfter (segments cs).2) := by
  obtain ⟨hrun, hrest⟩ := undelimited_segments cs
  refine segments_joined (undelimited_squeeze hrun) ?_
  intro s hs
  obtain ⟨t, ht, rfl⟩ := List.mem_map.mp hs
  exact undelimited_squeeze (hrest t ht)

/-! ## Squeezing from left to right -/

theorem squeezeRuns_append_char {run : List Char} (h : ∀ c ∈ run, Delimiter.ofChar? c = none)
    (d : Delimiter) (cs : List Char) :
    squeezeRuns (run ++ d.char :: cs) = squeeze run ++ d.char :: squeezeRuns cs := by
  unfold squeezeRuns
  rw [segments_append h, segments_cons_char]
  simp [joinedAfter, squeezeAfter]

theorem squeezeRuns_cons_char (d : Delimiter) (cs : List Char) :
    squeezeRuns (d.char :: cs) = d.char :: squeezeRuns cs :=
  squeezeRuns_append_char (List.forall_mem_nil _) d cs

theorem squeezeRuns_cons_blank {c : Char} (h : isBlank c = true) (hc : Delimiter.ofChar? c = none)
    (cs : List Char) : squeezeRuns (c :: cs) = squeezeRuns cs := by
  unfold squeezeRuns
  rw [segments]
  simp only [hc]
  rw [squeeze_cons_blank h]

/-- A name stays in front of a text that starts with a delimiter, or of none. -/
theorem squeezeRuns_name {name cs : List Char} (h : IsName name) (hcs : (segments cs).1 = []) :
    squeezeRuns (name ++ cs) = name ++ squeezeRuns cs := by
  unfold squeezeRuns
  rw [segments_append h.undelimited, hcs]
  simp only [List.append_nil]
  rw [squeeze_eq_self_iff.mpr h.spaced]
  rfl

theorem segments_char_nil (d : Delimiter) (cs : List Char) : (segments (d.char :: cs)).1 = [] := by
  rw [segments_cons_char]

mutual

/-- The text of a descriptor squeezes to its compact text. -/
theorem squeezeRuns_text : ∀ {d : Descriptor} {cs : List Char}, d.Named → (segments cs).1 = [] →
    squeezeRuns (d.text.toList ++ cs) = d.compact ++ squeezeRuns cs
  | .token t, cs, h, hcs => squeezeRuns_name h hcs
  | .applied head args, cs, h, hcs => by
    obtain ⟨hname, hne, hargs⟩ := h
    have htext : (Descriptor.applied head args).text.toList ++ cs =
        head.toList ++ Delimiter.opening.char ::
          ([',', ' '].intercalate ((texts args).map String.toList) ++
            Delimiter.closing.char :: cs) := by
      simp [text, String.toList_intercalate, Delimiter.char]
    rw [htext, squeezeRuns_append_char hname.undelimited,
      squeeze_eq_self_iff.mpr hname.spaced, squeezeRuns_texts hne hargs]
    simp [compact, Delimiter.char]

/-- The texts of arguments, a space behind each comma, squeeze to compact texts. -/
theorem squeezeRuns_texts : ∀ {args : List Descriptor} {cs : List Char}, args ≠ [] →
    AllNamed args →
    squeezeRuns ([',', ' '].intercalate ((texts args).map String.toList) ++
        Delimiter.closing.char :: cs) =
      [','].intercalate (compactAll args) ++ Delimiter.closing.char :: squeezeRuns cs
  | [a], cs, _, h => by
    simp only [texts, List.map_cons, List.map_nil, List.intercalate_singleton, compactAll]
    rw [squeezeRuns_text h.1 (segments_char_nil _ _), squeezeRuns_cons_char]
  | a :: b :: args, cs, _, h => by
    have ih := @squeezeRuns_texts (b :: args) cs (by simp) h.2
    have hcomma : ∀ rest, squeezeRuns (Delimiter.comma.char :: ' ' :: rest) =
        Delimiter.comma.char :: squeezeRuns rest := fun rest => by
      rw [squeezeRuns_cons_char, squeezeRuns_cons_blank (by decide) rfl]
    simp only [texts, List.map_cons, List.intercalate_cons_cons, compactAll,
      List.append_assoc, List.cons_append, List.nil_append] at ih ⊢
    rw [show (',' : Char) = Delimiter.comma.char from rfl] at ih ⊢
    rw [squeezeRuns_text h.1 (segments_char_nil _ _), hcomma, ih]

end

end WrapGen.Descriptor
