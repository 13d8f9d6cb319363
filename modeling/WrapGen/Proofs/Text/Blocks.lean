import Mathlib.Data.List.TakeDrop
import WrapGen.Proofs.Text.Structure

/-!
# The grammar of printed lines

`Blocks` is the grammar that a printer keeps to, line by line and block by block.
What the text of a line must be like for that, `isSafe` and `isSolid`, holds of a
text that is put together from such texts.

* `Line.splitLines_textAll`: the text of a list of lines is cut into these lines.
* `Blocks.exists_shows`: what lines of the grammar show, by induction over them.
* `Blocks.blockStructured`: lines of the grammar are a text that is made of blocks.
-/
namespace WrapGen.Text

/-! ## Texts that may stand in a line -/

/-- Whether a text leaves a line in one piece and opens no block at its end. -/
def isSafe (s : String) : Bool :=
  s.toList.all (fun c => !isControl c) && !opensBlock s.toList

/-- Whether a text may stand first in a line: it starts neither with white space nor
like a doc text or a comment. -/
def isLeading (s : String) : Bool :=
  s.toList.head?.any fun c => !isBlank c && c != '"' && c != '#'

/-- Whether a text may stand first in a line and last. -/
def isSolid (s : String) : Bool := isLeading s && isSafe s

/-- Whether a character neither breaks a line nor opens a block. -/
def isInline (c : Char) : Bool := !isControl c && c != ':'

/-- Whether no character of a text breaks a line, opens a block or quotes. -/
def isPlain (s : String) : Bool := s.toList.all fun c => isInline c && c != '"'

section
variable {s t : String}

@[simp] theorem isPlain_append (s t : String) : isPlain (s ++ t) = (isPlain s && isPlain t) := by
  simp [isPlain]

theorem isSafe_iff : isSafe s = true ↔
    (∀ c ∈ s.toList, isControl c = false) ∧ opensBlock s.toList = false := by
  simp [isSafe]

theorem isSafe_append (hs : isSafe s = true) (ht : isSafe t = true) :
    isSafe (s ++ t) = true := by
  obtain ⟨hs, hse⟩ := isSafe_iff.mp hs
  obtain ⟨ht, hte⟩ := isSafe_iff.mp ht
  refine isSafe_iff.mpr ⟨fun c hc => ?_, ?_⟩
  · rw [String.toList_append] at hc
    exact (List.mem_append.mp hc).elim (hs c) (ht c)
  · unfold opensBlock at *
    rw [String.toList_append, List.getLast?_append]
    cases h : t.toList.getLast? <;> simp_all

theorem isSafe_of_all (h : s.toList.all isInline = true) : isSafe s = true := by
  have hall : ∀ c ∈ s.toList, isControl c = false ∧ c ≠ ':' := by
    simpa [isInline] using h
  refine isSafe_iff.mpr ⟨fun c hc => (hall c hc).1, beq_eq_false_iff_ne.mpr fun hlast => ?_⟩
  exact (hall ':' (List.mem_of_getLast? hlast)).2 rfl

theorem isSafe_of_isPlain (h : isPlain s = true) : isSafe s = true := by
  refine isSafe_of_all (List.all_eq_true.mpr fun c hc => ?_)
  exact (Bool.and_eq_true_iff.mp (List.all_eq_true.mp h c hc)).1

theorem isLeading_append (hs : isLeading s = true) (t : String) : isLeading (s ++ t) = true := by
  unfold isLeading at *
  rw [String.toList_append, List.head?_append]
  cases h : s.toList.head? <;> simp_all

theorem isSolid_append (hs : isSolid s = true) (ht : isSafe t = true) :
    isSolid (s ++ t) = true := by
  obtain ⟨hl, hs⟩ := Bool.and_eq_true_iff.mp hs
  exact Bool.and_eq_true_iff.mpr ⟨isLeading_append hl t, isSafe_append hs ht⟩

theorem isSafe_of_isSolid (h : isSolid s = true) : isSafe s = true :=
  (Bool.and_eq_true_iff.mp h).2

theorem isLeading_iff : isLeading s = true ↔
    ∃ c cs, s.toList = c :: cs ∧ isBlank c = false ∧ c ≠ '"' ∧ c ≠ '#' := by
  unfold isLeading
  cases s.toList <;> simp [and_assoc]

end

/-! ## Lines of a text -/

namespace Line

/-- The characters of a line without its line end. -/
def chars : Line → List Char
  | blank => []
  | content level t => List.replicate (level * indentWidth) ' ' ++ t.toList

/-- No control character, and so no line end, is in a line. -/
def Unbroken (l : Line) : Prop := ∀ c ∈ l.chars, isControl c = false

theorem toList_text (l : Line) : l.text.toList = l.chars ++ ['\n'] := by
  cases l <;> simp [text, chars]

theorem toList_textAll (lines : List Line) :
    (textAll lines).toList = lines.flatMap fun l => l.chars ++ ['\n'] := by
  unfold textAll
  induction lines with
  | nil => rfl
  | cons l lines ih =>
    rw [List.map_cons, String.join_cons, String.toList_append, ih, toList_text,
      List.flatMap_cons]

theorem splitLines_append {cs : List Char} (h : ∀ c ∈ cs, isControl c = false)
    (rest : List Char) : splitLines (cs ++ '\n' :: rest) = cs :: splitLines rest := by
  induction cs with
  | nil => rfl
  | cons c cs ih =>
    obtain ⟨hc, hcs⟩ := List.forall_mem_cons.mp h
    have hn : c ≠ '\n' := by
      rintro rfl
      cases hc
    have hr : c ≠ '\r' := by
      rintro rfl
      cases hc
    rw [List.cons_append, splitLines, ih hcs]
    · exact hn
    · intro cs' hcr
      exact absurd hcr hr

/-- The text of a list of lines is cut into these lines. -/
theorem splitLines_textAll {lines : List Line} (h : ∀ l ∈ lines, l.Unbroken) :
    splitLines (textAll lines).toList = lines.map chars := by
  rw [toList_textAll]
  induction lines with
  | nil => rfl
  | cons l lines ih =>
    obtain ⟨hl, hlines⟩ := List.forall_mem_cons.mp h
    rw [List.flatMap_cons, List.append_assoc, List.singleton_append, splitLines_append hl,
      ih hlines, List.map_cons]

section
variable {t : String} {c : Char} {cs : List Char} (n : Nat)

theorem uncontrolled (h : (t.toList.all fun c => !isControl c) = true) :
    ∀ c ∈ t.toList, isControl c = false := by
  simpa using h

theorem unbroken_content (h : ∀ c ∈ t.toList, isControl c = false) :
    (content n t).Unbroken := by
  intro c hc
  rcases List.mem_append.mp hc with hc | hc
  · rw [(List.mem_replicate.mp hc).2]
    rfl
  · exact h c hc

theorem opensBlock_content (ht : t.toList = c :: cs) :
    opensBlock (content n t).chars = opensBlock t.toList := by
  simp [opensBlock, chars, ht, List.getLast?_append]

variable (ht : t.toList = c :: cs) (hc : isBlank c = false)
include ht hc

/-- What a line says starts after its indentation. -/
theorem span_content : (content n t).chars.span (· == ' ') =
    (List.replicate (n * indentWidth) ' ', t.toList) := by
  have hspace : (c == ' ') = false := by
    refine beq_eq_false_iff_ne.mpr ?_
    rintro rfl
    cases hc
  rw [List.span_eq_takeWhile_dropWhile, chars, List.takeWhile_append_of_pos (by simp),
    List.dropWhile_append_of_pos (by simp), ht, List.takeWhile_cons, List.dropWhile_cons, hspace]
  simp

theorem indentation_content : indentation (content n t).chars = n * levelWidth := by
  have h := span_content n ht hc
  rw [List.span_eq_takeWhile_dropWhile] at h
  rw [indentation, (Prod.mk.inj h).1, List.length_replicate]
  rfl

theorem unindented_content : unindented (content n t).chars = t.toList := by
  have h := span_content n ht hc
  rw [List.span_eq_takeWhile_dropWhile] at h
  exact (Prod.mk.inj h).2

theorem head_content : (unindented (content n t).chars).head?.any (!isBlank ·) = true := by
  simp [unindented_content n ht hc, ht, hc]

theorem isBlankLine_content : isBlankLine (content n t).chars = false := by
  simp [isBlankLine, chars, ht, hc]

end

end Line

/-! ## The grammar -/

/-- Lines that are the blocks of a level; `said` tells whether one of that level says
something that is no comment. -/
inductive Blocks : Nat → Bool → List Line → Prop
  | nil {n} : Blocks n false []
  | blank {n said lines} : Blocks n said lines → Blocks n said (.blank :: lines)
  | comment {n said lines t} : isSafe t = true → Blocks n said lines →
      Blocks n said (.content n ("# " ++ t) :: lines)
  | plain {n said lines t} : isSolid t = true → Blocks n said lines →
      Blocks n true (.content n t :: lines)
  /-- A line that opens a block, the block, and what follows. -/
  | block {n said lines t inner} : isSolid t = true → Blocks (n + 1) true inner →
      Blocks n said lines → Blocks n true (.content n (t ++ ":") :: (inner ++ lines))
  /-- A doc text, and what follows. -/
  | doc {n said lines t inner} : (∀ l ∈ .content n t :: inner, l.Unbroken ∧ '"' ∉ l.chars) →
      Blocks n said lines →
      Blocks n said (.content n ("\"\"\"" ++ t) :: (inner ++ .content n "\"\"\"" :: lines))

namespace Blocks

variable {n : Nat} {said also : Bool} {lines more : List Line}

theorem append (h : Blocks n said lines) (hm : Blocks n also more) :
    Blocks n (said || also) (lines ++ more) := by
  induction h with
  | nil => simpa using hm
  | blank _ ih => exact .blank (ih hm)
  | comment ht _ ih => exact .comment ht (ih hm)
  | plain ht _ ih => exact .plain ht (ih hm)
  | block ht hi _ _ ih =>
    rw [List.cons_append, List.append_assoc]
    exact .block ht hi (ih hm)
  | doc hd _ ih =>
    rw [List.cons_append, List.append_assoc]
    exact .doc hd (ih hm)

theorem unbroken (h : Blocks n said lines) : ∀ l ∈ lines, l.Unbroken := by
  induction h with
  | nil => exact List.forall_mem_nil _
  | blank _ ih => exact List.forall_mem_cons.mpr ⟨List.forall_mem_nil _, ih⟩
  | comment ht _ ih =>
    have hs := isSafe_append (show isSafe "# " = true by decide) ht
    exact List.forall_mem_cons.mpr ⟨Line.unbroken_content _ (isSafe_iff.mp hs).1, ih⟩
  | plain ht _ ih =>
    have hs := isSafe_of_isSolid ht
    exact List.forall_mem_cons.mpr ⟨Line.unbroken_content _ (isSafe_iff.mp hs).1, ih⟩
  | @block n _ _ t _ ht _ _ hi ih =>
    have hs := (isSafe_iff.mp (isSafe_of_isSolid ht)).1
    refine List.forall_mem_cons.mpr
      ⟨Line.unbroken_content _ ?_, List.forall_mem_append.mpr ⟨hi, ih⟩⟩
    simp only [String.toList_append, List.forall_mem_append]
    exact ⟨hs, Line.uncontrolled (by decide)⟩
  | @doc n _ _ t inner hd _ ih =>
    obtain ⟨⟨ht, -⟩, hi⟩ := List.forall_mem_cons.mp hd
    refine List.forall_mem_cons.mpr ⟨Line.unbroken_content _ ?_, ?_⟩
    · simp only [String.toList_append, List.forall_mem_append]
      exact ⟨Line.uncontrolled (by decide), fun c hc => ht c (List.mem_append_right _ hc)⟩
    · refine List.forall_mem_append.mpr ⟨fun l hl => (hi l hl).1, List.forall_mem_cons.mpr ?_⟩
      exact ⟨Line.unbroken_content _ (Line.uncontrolled (by decide)), ih⟩

end Blocks

/-! ## From the grammar to the text -/

section
variable {line : List Char} {rest : List (List Char)}

theorem afterMark?_of_not_mem (h : '"' ∉ line) : afterMark? line = none := by
  unfold afterMark?
  split
  · rename_i heq
    refine absurd ((List.dropWhile_sublist (· == ' ')).mem (a := '"') ?_) h
    rw [show line.dropWhile (· == ' ') = _ from heq]
    exact List.mem_cons_self
  · rfl

theorem outsideDocs?_cons (h : afterMark? line = none) :
    outsideDocs? false (line :: rest) = (outsideDocs? false rest).map (line :: ·) := by
  simp [outsideDocs?, h]

/-- What is inside a doc text is left out, up to the closing mark. -/
theorem outsideDocs?_inside {inner : List (List Char)} (hi : ∀ l ∈ inner, '"' ∉ l)
    (hl : afterMark? line = some []) :
    outsideDocs? true (inner ++ line :: rest) = outsideDocs? false rest := by
  induction inner with
  | nil => simp [outsideDocs?, hl]
  | cons l inner ih =>
    obtain ⟨h, hi⟩ := List.forall_mem_cons.mp hi
    simp [outsideDocs?, afterMark?_of_not_mem h, h, ih hi]

theorem afterMark?_content {t : String} {c : Char} {cs : List Char} (n : Nat)
    (ht : t.toList = c :: cs) (hc : isBlank c = false) (hq : c ≠ '"') :
    afterMark? (Line.content n t).chars = none := by
  unfold afterMark?
  rw [Line.unindented_content n ht hc, ht]
  split
  · rename_i heq
    exact absurd (List.cons.inj heq).1 hq
  · rfl

theorem afterMark?_doc (n : Nat) (t : String) :
    afterMark? (Line.content n ("\"\"\"" ++ t)).chars = some t.toList := by
  have ht : ("\"\"\"" ++ t).toList = '"' :: '"' :: '"' :: t.toList := by
    rw [String.toList_append]
    rfl
  unfold afterMark?
  rw [Line.unindented_content n ht (by decide), ht]
  rfl

end

/-- What lines of the grammar are as lines of a text: outside doc texts they are
`code`, whatever follows, and what they show is made of blocks. -/
structure Shows (n : Nat) (said : Bool) (lines : List Line) (code : List (List Char)) :
    Prop where
  outside : ∀ rest, outsideDocs? false (lines.map Line.chars ++ rest) =
    (outsideDocs? false rest).map (code ++ ·)
  structured : RowsStructured n (shown code)
  tells : said = true →
    ∃ row ∈ shown code, indentation row = n * levelWidth ∧ isComment row = false

namespace Shows

variable {n : Nat} {said also : Bool} {lines inner : List Line} {code within : List (List Char)}
  {t : String} {c : Char} {cs : List Char}

theorem nil : Shows n false [] [] :=
  ⟨fun _ => by simp, .nil, nofun⟩

theorem blank (h : Shows n said lines code) : Shows n said (.blank :: lines) ([] :: code) where
  outside rest := by
    rw [List.map_cons, List.cons_append, outsideDocs?_cons rfl, h.outside, Option.map_map]
    rfl
  structured := h.structured
  tells := h.tells

theorem shown_content (ht : t.toList = c :: cs) (hc : isBlank c = false) :
    shown ((Line.content n t).chars :: code) = (Line.content n t).chars :: shown code := by
  simp [shown, Line.isBlankLine_content n ht hc]

theorem isComment_content (ht : t.toList = c :: cs) (hc : isBlank c = false) (hn : c ≠ '#') :
    isComment (Line.content n t).chars = false := by
  simp [isComment, Line.unindented_content n ht hc, ht, hn]

theorem outside_content (ht : t.toList = c :: cs) (hc : isBlank c = false) (hq : c ≠ '"')
    (h : Shows n said lines code) (rest : List (List Char)) :
    outsideDocs? false ((Line.content n t :: lines).map Line.chars ++ rest) =
      (outsideDocs? false rest).map ((Line.content n t).chars :: code ++ ·) := by
  rw [List.map_cons, List.cons_append, outsideDocs?_cons (afterMark?_content n ht hc hq),
    h.outside, Option.map_map]
  rfl

/-- A line that opens no block stands in front of others. -/
theorem structured_content (ht : t.toList = c :: cs) (hc : isBlank c = false)
    (ho : opensBlock t.toList = false) (h : Shows n said lines code) :
    RowsStructured n (shown ((Line.content n t).chars :: code)) := by
  rw [shown_content ht hc]
  refine (RowsStructured.singleton (Line.indentation_content n ht hc)
    (Line.head_content n ht hc) ?_).append h.structured
  rw [Line.opensBlock_content n ht, ho]

theorem comment (ht : isSafe t = true) (h : Shows n said lines code) :
    Shows n said (.content n ("# " ++ t) :: lines)
      ((Line.content n ("# " ++ t)).chars :: code) := by
  have hlist : ("# " ++ t).toList = '#' :: ' ' :: t.toList := by
    rw [String.toList_append]
    rfl
  have hsafe := (isSafe_iff.mp (isSafe_append (show isSafe "# " = true by decide) ht)).2
  refine ⟨outside_content hlist (by decide) (by decide) h,
    structured_content hlist (by decide) hsafe h, fun hsaid => ?_⟩
  obtain ⟨row, hrow, hspec⟩ := h.tells hsaid
  rw [shown_content hlist (by decide)]
  exact ⟨row, List.mem_cons_of_mem _ hrow, hspec⟩

theorem plain (ht : isSolid t = true) (h : Shows n said lines code) :
    Shows n true (.content n t :: lines) ((Line.content n t).chars :: code) := by
  obtain ⟨hl, hs⟩ := Bool.and_eq_true_iff.mp ht
  obtain ⟨c, cs, hlist, hc, hq, hn⟩ := isLeading_iff.mp hl
  refine ⟨outside_content hlist hc hq h, structured_content hlist hc (isSafe_iff.mp hs).2 h,
    fun _ => ⟨_, ?_, Line.indentation_content n hlist hc, isComment_content hlist hc hn⟩⟩
  rw [shown_content hlist hc]
  exact List.mem_cons_self

theorem block (ht : isSolid t = true) (hi : Shows (n + 1) true inner within)
    (h : Shows n said lines code) :
    Shows n true (.content n (t ++ ":") :: (inner ++ lines))
      ((Line.content n (t ++ ":")).chars :: (within ++ code)) := by
  obtain ⟨c, cs, hlist, hc, hq, hn⟩ := isLeading_iff.mp
    (isLeading_append (Bool.and_eq_true_iff.mp ht).1 ":")
  have hrow := Line.indentation_content n hlist hc
  have hcode : shown ((Line.content n (t ++ ":")).chars :: (within ++ code)) =
      (Line.content n (t ++ ":")).chars :: shown within ++ shown code := by
    rw [shown_content hlist hc, shown, List.filter_append]
    rfl
  constructor
  · intro rest
    rw [List.map_cons, List.cons_append, outsideDocs?_cons (afterMark?_content n hlist hc hq),
      List.map_append, List.append_assoc, hi.outside, h.outside, Option.map_map, Option.map_map]
    simp [Function.comp_def]
  · rw [hcode]
    refine (RowsStructured.nest hrow (Line.head_content n hlist hc) ?_ hi.structured
      (hi.tells rfl)).append h.structured
    rw [Line.opensBlock_content n hlist, String.toList_append, opensBlock, List.getLast?_append]
    rfl
  · intro _
    rw [hcode]
    exact ⟨_, List.mem_cons_self, hrow, isComment_content hlist hc hn⟩

theorem doc (hd : ∀ l ∈ .content n t :: inner, l.Unbroken ∧ '"' ∉ l.chars)
    (h : Shows n said lines code) :
    Shows n said (.content n ("\"\"\"" ++ t) :: (inner ++ .content n "\"\"\"" :: lines)) code where
  outside rest := by
    obtain ⟨⟨-, ht⟩, hi⟩ := List.forall_mem_cons.mp hd
    have hfirst : t.toList.contains '"' = false := by
      have hq : '"' ∉ t.toList := fun hm => ht (List.mem_append_right _ hm)
      simpa using hq
    have hquotes : ∀ l ∈ inner.map Line.chars, '"' ∉ l := by
      simpa using fun l hl => (hi l hl).2
    have hclose := afterMark?_doc n ""
    rw [String.append_empty] at hclose
    rw [List.map_cons, List.cons_append, outsideDocs?, afterMark?_doc]
    simp only [hfirst, Bool.not_false, List.map_append, List.map_cons, List.append_assoc,
      List.cons_append]
    rw [if_neg (by decide), outsideDocs?_inside hquotes hclose, h.outside]
  structured := h.structured
  tells := h.tells

end Shows

namespace Blocks

variable {n : Nat} {said : Bool} {lines : List Line}

theorem exists_shows (h : Blocks n said lines) : ∃ code, Shows n said lines code := by
  induction h with
  | nil => exact ⟨_, .nil⟩
  | blank _ ih => exact ih.imp' _ fun _ => .blank
  | comment ht _ ih => exact ih.imp' _ fun _ => .comment ht
  | plain ht _ ih => exact ih.imp' _ fun _ => .plain ht
  | block ht _ _ hi ih =>
    obtain ⟨within, hi⟩ := hi
    obtain ⟨code, ih⟩ := ih
    exact ⟨_, .block ht hi ih⟩
  | doc hd _ ih => exact ih.imp fun _ => .doc hd

/-- The text of lines of the grammar is made of blocks. -/
theorem blockStructured (h : Blocks 0 said lines) : BlockStructured (Line.textAll lines) := by
  obtain ⟨code, hcode⟩ := h.exists_shows
  refine ⟨code, ?_, hcode.structured⟩
  have houtside := hcode.outside []
  rw [Line.splitLines_textAll h.unbroken]
  simpa [outsideDocs?] using houtside

end Blocks

end WrapGen.Text
