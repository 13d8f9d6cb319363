import Mathlib.Data.List.Chain
import Mathlib.Data.List.Infix
import Mathlib.Data.List.TakeWhile
import WrapGen.Text.Blank
import WrapGen.Text.Lines

/-!
# Texts that are made of blocks

`BlockStructured` is said of a text alone, without a look at how it was made: of
its lines as they are cut at line ends, outside doc texts. Every line is indented
by four spaces for each level; only a line that ends in a colon is followed by a
deeper one, by one level; and below every such line there is one, one level
deeper, that says something. All of this can be decided.

* `RowsStructured.append`, `RowsStructured.nest`: blocks may follow one another, and
  stand below a line that opens a block.
-/
namespace WrapGen.Text

/-! ## What a line shows -/

/-- The spaces that a line starts with. -/
def indentation (cs : List Char) : Nat := (cs.takeWhile (· == ' ')).length

/-- A line without the spaces it starts with. -/
def unindented (cs : List Char) : List Char := cs.dropWhile (· == ' ')

/-- Whether a line shows nothing. -/
def isBlankLine (cs : List Char) : Bool := cs.all isBlank

/-- Whether a line is a comment. -/
def isComment (cs : List Char) : Bool := (unindented cs).head? == some '#'

/-- Whether a line opens a block. -/
def opensBlock (cs : List Char) : Bool := cs.getLast? == some ':'

/-- What a line has after the mark of a doc text, if it starts with one. -/
def afterMark? (cs : List Char) : Option (List Char) :=
  match unindented cs with
  | '"' :: '"' :: '"' :: rest => some rest
  | _ => none

/-- The lines outside doc texts. A doc text reaches from a line that starts with
the mark to the next one; it must end, and hold no further double quote. -/
def outsideDocs? : Bool → List (List Char) → Option (List (List Char))
  | inside, [] => if inside then none else some []
  | inside, line :: lines =>
    match afterMark? line with
    | some rest => if rest.contains '"' then none else outsideDocs? (!inside) lines
    | none =>
      if inside then if line.contains '"' then none else outsideDocs? true lines
      else (outsideDocs? false lines).map (line :: ·)

/-- Spaces for each level. -/
def levelWidth : Nat := 4

/-- The indentation of one line and of the next: the second is deeper only if the
first opens a block, and then by one level. -/
def Follows (a b : List Char) : Prop :=
  indentation b ≤ indentation a ∨
    opensBlock a = true ∧ indentation b = indentation a + levelWidth

instance : DecidableRel Follows := fun _ _ => inferInstanceAs (Decidable (_ ∨ _))

/-- If a line opens a block, then of the lines below, up to the first that is not
deeper, one is one level deeper and no comment. -/
def HasBody (row : List Char) (below : List (List Char)) : Prop :=
  opensBlock row = true → ∃ b ∈ below.takeWhile fun b => indentation row < indentation b,
    indentation b = indentation row + levelWidth ∧ isComment b = false

instance (row : List Char) (below : List (List Char)) : Decidable (HasBody row below) :=
  inferInstanceAs (Decidable (_ → _))

/-- Lines that show something and are the blocks of a level. -/
structure RowsStructured (level : Nat) (rows : List (List Char)) : Prop where
  /-- Four spaces stand for a level, and then comes what the line says. -/
  indented : ∀ row ∈ rows, levelWidth ∣ indentation row ∧
    level * levelWidth ≤ indentation row ∧ (unindented row).head?.any (!isBlank ·) = true
  /-- The first line is at the level itself. -/
  start : ∀ row ∈ rows.head?, indentation row = level * levelWidth
  steps : rows.IsChain Follows
  bodies : ∀ row below, row :: below <:+ rows → HasBody row below

instance (level : Nat) (rows : List (List Char)) : Decidable (RowsStructured level rows) :=
  decidable_of_iff
    ((∀ row ∈ rows, levelWidth ∣ indentation row ∧ level * levelWidth ≤ indentation row ∧
        (unindented row).head?.any (!isBlank ·) = true) ∧
      (∀ row ∈ rows.head?, indentation row = level * levelWidth) ∧ rows.IsChain Follows ∧
      ∀ below ∈ rows.tails, ∀ row ∈ below.head?, HasBody row below.tail) <| by
  constructor
  · rintro ⟨hindented, hstart, hsteps, hbodies⟩
    exact ⟨hindented, hstart, hsteps, fun row below h =>
      hbodies (row :: below) (List.mem_tails _ _ |>.mpr h) row rfl⟩
  · rintro ⟨hindented, hstart, hsteps, hbodies⟩
    refine ⟨hindented, hstart, hsteps, fun below h row hrow => hbodies _ _ ?_⟩
    rw [List.cons_head?_tail hrow]
    exact List.mem_tails _ _ |>.mp h

/-- The lines that show something. -/
def shown (lines : List (List Char)) : List (List Char) :=
  lines.filter fun line => !isBlankLine line

/-- A text that is made of blocks outside its doc texts. -/
def BlockStructured (text : String) : Prop :=
  ∃ lines ∈ outsideDocs? false (splitLines text.toList), RowsStructured 0 (shown lines)

instance : DecidablePred BlockStructured :=
  fun _ => inferInstanceAs (Decidable (∃ _ ∈ _, _))

-- no comment is a body, no line is deeper without a reason, and none by half a level
example : BlockStructured "if x:\n    # y\n    f()\n\ng()\n" ∧
    ¬ BlockStructured "if x:\n    # y\ng()\n" ∧ ¬ BlockStructured "f()\n    g()\n" ∧
    ¬ BlockStructured "if x:\n  f()\n" := by
  decide +kernel

/-! ## Rows -/

/-- A body is still there when more lines follow. -/
theorem HasBody.append {row : List Char} {below : List (List Char)} (h : HasBody row below)
    (more : List (List Char)) : HasBody row (below ++ more) := by
  intro ho
  obtain ⟨b, hb, hspec⟩ := h ho
  refine ⟨b, ?_, hspec⟩
  rw [List.takeWhile_append]
  split
  · rename_i hall
    exact List.mem_append_left _ ((List.takeWhile_prefix _).eq_of_length hall ▸ hb)
  · exact hb

namespace RowsStructured

variable {n : Nat} {row : List Char} {rows as bs inner : List (List Char)}

theorem nil : RowsStructured n [] :=
  ⟨by simp, by simp, .nil, by simp⟩

/-- Blocks may follow one another. -/
theorem append (ha : RowsStructured n as) (hb : RowsStructured n bs) :
    RowsStructured n (as ++ bs) where
  indented row hrow := (List.mem_append.mp hrow).elim (ha.indented row) (hb.indented row)
  start row hrow := by
    cases as with
    | nil => exact hb.start row hrow
    | cons a as => exact ha.start row hrow
  steps := by
    refine List.isChain_append.mpr ⟨ha.steps, hb.steps, fun a hlast b hhead => ?_⟩
    have hdeep := (ha.indented a (List.mem_of_getLast? hlast)).2.1
    have hfirst := hb.start b hhead
    exact .inl (by omega)
  bodies row below h := by
    obtain ⟨before, h⟩ := h
    rcases List.append_eq_append_iff.mp h with ⟨cs, rfl, hcs⟩ | ⟨cs, rfl, hcs⟩
    · cases cs with
      | nil => exact hb.bodies row below ⟨[], hcs⟩
      | cons c cs =>
        obtain ⟨rfl, rfl⟩ := List.cons.inj hcs
        exact (ha.bodies row cs (List.suffix_append _ _)).append bs
    · exact hb.bodies row below ⟨cs, hcs.symm⟩

/-- A line of a level that opens no block. -/
theorem singleton (hi : indentation row = n * levelWidth)
    (hc : (unindented row).head?.any (!isBlank ·) = true) (ho : opensBlock row = false) :
    RowsStructured n [row] where
  indented := List.forall_mem_singleton.mpr ⟨hi ▸ Nat.dvd_mul_left _ _, hi.ge, hc⟩
  start := by simpa using hi
  steps := .singleton _
  bodies r below h := by
    obtain ⟨rfl, rfl⟩ | h := List.suffix_cons_iff.mp h |>.imp List.cons.inj id
    · intro hopens
      rw [ho] at hopens
      cases hopens
    · simp at h

/-- A line that opens a block, and its block one level deeper. -/
theorem nest (hi : indentation row = n * levelWidth)
    (hc : (unindented row).head?.any (!isBlank ·) = true) (ho : opensBlock row = true)
    (h : RowsStructured (n + 1) inner)
    (hsaid : ∃ b ∈ inner, indentation b = (n + 1) * levelWidth ∧ isComment b = false) :
    RowsStructured n (row :: inner) where
  indented := by
    refine List.forall_mem_cons.mpr ⟨⟨hi ▸ Nat.dvd_mul_left _ _, hi.ge, hc⟩, fun b hb => ?_⟩
    obtain ⟨hdvd, hle, hspec⟩ := h.indented b hb
    exact ⟨hdvd, by rw [Nat.succ_mul] at hle; omega, hspec⟩
  start := by simpa using hi
  steps := by
    refine List.isChain_cons.mpr ⟨fun b hb => .inr ⟨ho, ?_⟩, h.steps⟩
    rw [h.start b hb, hi, Nat.succ_mul]
  bodies r below hr := by
    obtain ⟨rfl, rfl⟩ | hr := List.suffix_cons_iff.mp hr |>.imp List.cons.inj id
    · intro _
      obtain ⟨b, hb, hlevel, hcomment⟩ := hsaid
      refine ⟨b, ?_, by rw [hlevel, hi, Nat.succ_mul], hcomment⟩
      -- every line of the block is deeper
      rw [List.takeWhile_eq_self_iff.mpr]
      · exact hb
      · intro d hd
        have hle := (h.indented d hd).2.1
        rw [Nat.succ_mul] at hle
        exact decide_eq_true (by rw [hi]; unfold levelWidth at hle ⊢; omega)
    · exact h.bodies r below hr

end RowsStructured

end WrapGen.Text
