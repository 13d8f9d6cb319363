import WrapGen.Code.FragmentText
import WrapGen.Proofs.Code.Solid

/-!
# Solid code is written in blocks

The lines of a statement are a block of their level, by induction over the
statements inside it, with one case for each form of statement. Functions, classes
and fragments follow the same way.

* `Stmt.blocks_lines`, `Function.blocks_lines`, `ClassDef.blocks_lines`: the lines of
  solid code keep to the grammar of blocks.
* `Fragment.blockStructured_text`: so the text of a solid fragment is made of blocks.
-/
namespace WrapGen.Code

open Text

/-! ## Lines and blocks alone -/

section
variable {n : Nat} {t : String} {inner : List Line}

theorem blocks_line (ht : isSolid t = true) : Blocks n true (line n t) :=
  .plain ht .nil

/-- A line that opens a block, with its block. -/
theorem blocks_opened (ht : isSolid t = true) (hi : Blocks (n + 1) true inner) :
    Blocks n true (line n (t ++ ":") ++ inner) := by
  have h := Blocks.block ht hi (.nil (n := n))
  rwa [List.append_nil] at h

end

/-! ## Statements -/

namespace Stmt

mutual

/-- The lines of a solid statement are a block. -/
theorem blocks_lines (n : Nat) : ∀ s : Stmt, s.solid = true → Blocks n s.hasCode (s.lines n)
  | .decl t e, h => by
    obtain ⟨ht, he⟩ := Bool.and_eq_true_iff.mp h
    refine blocks_line (isSolid_append (isSolid_append (isSolid_append ?_ ?_) ?_) ?_)
    · decide
    · exact isSafe_of_isPlain ht
    · decide
    · exact e.isSafe_text he
  | .assign target value, h => by
    obtain ⟨ht, hv⟩ := Bool.and_eq_true_iff.mp h
    obtain ⟨hl, ht⟩ := Bool.and_eq_true_iff.mp ht
    refine blocks_line (isSolid_append (isSolid_append ?_ ?_) ?_)
    · exact Expr.isSolid_text hl ht
    · decide
    · exact value.isSafe_text hv
  | .expr e, h => by
    obtain ⟨hl, he⟩ := Bool.and_eq_true_iff.mp h
    exact blocks_line (Expr.isSolid_text hl he)
  | .branch arms otherwise, h => by
    obtain ⟨ha, ho⟩ := Bool.and_eq_true_iff.mp h
    exact (blocks_armLines n (by decide) arms ha).append (blocks_elseLines n otherwise ho)
  | .forEach targets source body, h => by
    obtain ⟨hs, hb⟩ := Bool.and_eq_true_iff.mp h
    obtain ⟨ht, hs⟩ := Bool.and_eq_true_iff.mp hs
    have htargets := isSafe_intercalate fun t hm => isSafe_of_isPlain (List.all_eq_true.mp ht t hm)
    refine blocks_opened (isSolid_append (isSolid_append (isSolid_append ?_ htargets) ?_) ?_)
      (blocks_blockLines (n + 1) body hb)
    · decide
    · decide
    · exact source.isSafe_text hs
  | .loop condition body, h => by
    obtain ⟨hc, hb⟩ := Bool.and_eq_true_iff.mp h
    exact blocks_opened (isSolid_append (by decide) (condition.isSafe_text hc))
      (blocks_blockLines (n + 1) body hb)
  | .ret none, _ => blocks_line (by decide)
  | .ret (some e), h | .raise e, h | .delete e, h =>
    blocks_line (isSolid_append (by decide) (e.isSafe_text h))
  | .attempt body exception handler, h => by
    obtain ⟨hb, hh⟩ := Bool.and_eq_true_iff.mp h
    obtain ⟨hx, hb⟩ := Bool.and_eq_true_iff.mp hb
    have htry := blocks_opened (t := "try") (by decide) (blocks_blockLines (n + 1) body hb)
    have hexcept := blocks_opened (t := "except " ++ exception)
      (isSolid_append (by decide) (isSafe_of_isPlain hx)) (blocks_blockLines (n + 1) handler hh)
    have happend := htry.append hexcept
    rwa [← List.append_assoc] at happend
  | .comment t, h => .comment h .nil
  | .blank, _ => .blank .nil

/-- The lines of a solid block with code in it. -/
theorem blocks_blockLines (n : Nat) : ∀ ss : List Stmt, (solidAll ss && filled ss) = true →
    Blocks n true (blockLines n ss)
  | [], _ => blocks_line (by decide)
  | s :: ss, h => by
    obtain ⟨hs, hcode⟩ := Bool.and_eq_true_iff.mp h
    obtain ⟨hs, hss⟩ := Bool.and_eq_true_iff.mp hs
    have hlines := (blocks_lines n s hs).append (blocks_restLines n ss hss)
    have hany : (s.hasCode || anyCode ss) = true := hcode
    rwa [hany] at hlines

theorem blocks_restLines (n : Nat) : ∀ ss : List Stmt, solidAll ss = true →
    Blocks n (anyCode ss) (restLines n ss)
  | [], _ => .nil
  | s :: ss, h => by
    obtain ⟨hs, hss⟩ := Bool.and_eq_true_iff.mp h
    exact (blocks_lines n s hs).append (blocks_restLines n ss hss)

theorem blocks_armLines (n : Nat) {keyword : String} (hk : isSolid keyword = true) :
    ∀ arms : List (Expr × List Stmt), solidArms arms = true →
      Blocks n (!arms.isEmpty) (armLines n keyword arms)
  | [], _ => .nil
  | (condition, body) :: arms, h => by
    obtain ⟨hb, harms⟩ := Bool.and_eq_true_iff.mp h
    obtain ⟨hc, hb⟩ := Bool.and_eq_true_iff.mp hb
    exact (blocks_opened (isSolid_append hk (condition.isSafe_text hc))
      (blocks_blockLines (n + 1) body hb)).append (blocks_armLines n (by decide) arms harms)

theorem blocks_elseLines (n : Nat) : ∀ body : Option (List Stmt), solidOption body = true →
    Blocks n body.isSome (elseLines n body)
  | none, _ => .nil
  | some body, h => blocks_opened (t := "else") (by decide) (blocks_blockLines (n + 1) body h)

end

end Stmt

/-! ## Doc texts -/

/-- The lines of a text hold characters of the text, but no line feed. -/
theorem mem_of_mem_splitLines (cs : List Char) : ∀ l ∈ splitLines cs, ∀ c ∈ l,
    c ∈ cs ∧ c ≠ '\n' := by
  fun_induction splitLines cs <;> grind

/-- The lines of a doc text are left alone, and so are the blocks after it. -/
theorem blocks_docLines {n : Nat} {said : Bool} {doc : String} {lines : List Line}
    (hdoc : isDoc doc = true) (h : Blocks n said lines) :
    Blocks n said (docLines n doc ++ lines) := by
  have hline : ∀ l ∈ splitLines doc.toList, ∀ c ∈ l, isControl c = false ∧ c ≠ '"' := by
    intro l hl c hc
    obtain ⟨hm, hn⟩ := mem_of_mem_splitLines _ l hl c hc
    simpa [hn] using List.all_eq_true.mp hdoc c hm
  have hcontent : ∀ l ∈ splitLines doc.toList,
      (Line.content n (String.ofList l)).Unbroken ∧
        '"' ∉ (Line.content n (String.ofList l)).chars := by
    intro l hl
    refine ⟨Line.unbroken_content n (by simpa using fun c hc => (hline l hl c hc).1), ?_⟩
    simp only [Line.chars, String.toList_ofList, List.mem_append, List.mem_replicate, not_or]
    exact ⟨by simp, fun hm => (hline l hl _ hm).2 rfl⟩
  unfold docLines
  dsimp only
  split
  · have hempty : ∀ l ∈ [Line.content n ""], l.Unbroken ∧ '"' ∉ l.chars :=
      List.forall_mem_singleton.mpr
        ⟨Line.unbroken_content n (Line.uncontrolled (by decide)), by simp [Line.chars]⟩
    exact .doc hempty h
  · rename_i first rest hsplit
    rw [hsplit] at hcontent
    obtain ⟨hfirst, hrest⟩ := List.forall_mem_cons.mp hcontent
    have hinner : ∀ l ∈ rest.map fun cs =>
        if cs.isEmpty then Line.blank else .content n (String.ofList cs),
        l.Unbroken ∧ '"' ∉ l.chars := by
      refine List.forall_mem_map.mpr fun cs hcs => ?_
      split
      · exact ⟨List.forall_mem_nil _, List.not_mem_nil⟩
      · exact hrest cs hcs
    have hlines := Blocks.doc (List.forall_mem_cons.mpr ⟨hfirst, hinner⟩) h
    simpa only [line, docMark, List.append_assoc, List.cons_append, List.nil_append] using hlines

/-! ## Functions -/

theorem Param.isSafe_text {p : Param} (h : p.solid = true) : isSafe p.text = true := by
  simp only [solid, Bool.and_eq_true] at h
  obtain ⟨⟨hname, htype⟩, hdefault⟩ := h
  unfold text
  extract_lets declared
  have hdeclared : isPlain declared = true := by
    unfold declared
    cases ht : p.type with
    | none => exact hname
    | some t =>
      rw [ht] at htype
      have ht : isPlain t = true := htype
      dsimp only
      split <;> simp +decide [ht, hname]
  cases hd : p.default with
  | none => exact isSafe_of_isPlain hdeclared
  | some e =>
    rw [hd] at hdefault
    exact isSafe_append (isSafe_append (isSafe_of_isPlain hdeclared) (by decide))
      (e.isSafe_text hdefault)

namespace Function

variable {f : Function}

theorem isSolid_headText (h : f.solid = true) : isSolid f.headText = true := by
  simp only [solid, Bool.and_eq_true] at h
  obtain ⟨⟨⟨⟨hname, hparams⟩, hreturns⟩, -⟩, -⟩ := h
  have htexts : ∀ t ∈ f.params.map Param.text, isSafe t = true :=
    List.forall_mem_map.mpr fun p hp => Param.isSafe_text (List.all_eq_true.mp hparams p hp)
  unfold headText
  extract_lets keyword
  have hkeyword : isSolid keyword = true := by
    unfold keyword
    split
    · decide
    · rename_i t _ hr
      rw [hr] at hreturns
      exact isSolid_append (isSolid_append (by decide) (isSafe_of_isPlain hreturns)) (by decide)
    · decide
  exact isSolid_append (isSolid_append (isSolid_append (isSolid_append hkeyword
    (isSafe_of_isPlain hname)) (by decide)) (isSafe_intercalate htexts)) (by decide)

/-- The lines of a solid function are a block. -/
theorem blocks_lines (n : Nat) (h : f.solid = true) : Blocks n true (f.lines n) := by
  have hhead := isSolid_headText h
  simp only [solid, Bool.and_eq_true] at h
  obtain ⟨⟨-, hdoc⟩, hbody⟩ := h
  unfold lines
  split
  · exact blocks_line hhead
  · rename_i body hb
    rw [hb] at hbody
    rw [Option.isNone_iff_eq_none.mp hdoc]
    exact blocks_opened hhead (Stmt.blocks_blockLines (n + 1) body hbody)

end Function

/-! ## Classes -/

namespace ClassDef

theorem blocks_methodLines (n : Nat) : ∀ (first : Bool) (ms : List Function),
    ms.all Function.solid = true → Blocks n (!ms.isEmpty) (methodLines n first ms)
  | _, [], _ => .nil
  | first, m :: ms, h => by
    obtain ⟨hm, hms⟩ := Bool.and_eq_true_iff.mp h
    have hlines := (m.blocks_lines n hm).append (blocks_methodLines n false ms hms)
    unfold methodLines
    rw [List.append_assoc]
    split
    · exact .blank hlines
    · exact hlines

theorem blocks_fieldLines (n : Nat) : ∀ fs : List Field,
    fs.all (fun f => isPlain f.type && isPlain f.name) = true →
    Blocks n (!fs.isEmpty) (fs.flatMap fun f => line n f.text)
  | [], _ => .nil
  | f :: fs, h => by
    obtain ⟨hf, hfs⟩ := Bool.and_eq_true_iff.mp h
    obtain ⟨ht, hn⟩ := Bool.and_eq_true_iff.mp hf
    have hpublic : isSafe (if f.isPublic then "public " else "") = true := by split <;> decide
    refine (blocks_line ?_).append (blocks_fieldLines n fs hfs)
    exact isSolid_append (isSolid_append (isSolid_append (isSolid_append (by decide) hpublic)
      (isSafe_of_isPlain ht)) (by decide)) (isSafe_of_isPlain hn)

/-- A line that does nothing stands in for none. -/
theorem blocks_orPass {n : Nat} : ∀ {lines : List Line}, (lines ≠ [] → Blocks n true lines) →
    Blocks n true (match lines with
      | [] => passLines n
      | lines => lines)
  | [], _ => blocks_line (by decide)
  | _ :: _, h => h (List.cons_ne_nil _ _)

theorem blocks_bodyLines (n : Nat) {c : ClassDef} (h : c.solid = true) :
    Blocks n true (c.bodyLines n) := by
  simp only [solid, Bool.and_eq_true] at h
  obtain ⟨⟨⟨⟨-, hdoc⟩, hfields⟩, hmethods⟩, hfilled⟩ := h
  have hrest := (blocks_fieldLines n c.fields hfields).append
    (blocks_methodLines n (c.doc.isNone && c.fields.isEmpty) c.methods hmethods)
  unfold bodyLines
  dsimp only
  rw [List.append_assoc]
  refine blocks_orPass fun hne => ?_
  cases hd : c.doc with
  | none =>
    have hsaid : (!c.fields.isEmpty || !c.methods.isEmpty) = true := by
      by_contra hempty
      simp only [Bool.or_eq_true, Bool.not_eq_true', List.isEmpty_eq_false_iff, not_or, ne_eq,
        not_not] at hempty
      rw [hd, hempty.1, hempty.2] at hne
      exact hne rfl
    rw [hd, hsaid] at hrest
    exact hrest
  | some d =>
    have hsaid : (!c.fields.isEmpty || !c.methods.isEmpty) = true := by
      simpa [hd] using hfilled
    rw [hd, hsaid] at hrest
    rw [hd] at hdoc
    exact blocks_docLines hdoc hrest

theorem exists_headText {c : ClassDef} (h : c.solid = true) :
    ∃ t, isSolid t = true ∧ c.headText = t ++ ":" := by
  simp only [solid, Bool.and_eq_true] at h
  obtain ⟨⟨⟨⟨⟨hname, hbases⟩, -⟩, -⟩, -⟩, -⟩ := h
  refine ⟨_, isSolid_append (isSolid_append ?_ (isSafe_of_isPlain hname)) ?_, rfl⟩
  · split <;> decide
  · split
    · decide
    · exact isSafe_append (isSafe_append (by decide) (isSafe_intercalate fun b hb =>
        isSafe_of_isPlain (List.all_eq_true.mp hbases b hb))) (by decide)

/-- The lines of a solid class are a block. -/
theorem blocks_lines (n : Nat) {c : ClassDef} (h : c.solid = true) :
    Blocks n true (c.lines n) := by
  obtain ⟨t, ht, hhead⟩ := exists_headText h
  rw [lines, hhead]
  exact blocks_opened ht (blocks_bodyLines (n + 1) h)

end ClassDef

/-! ## Fragments -/

theorem Item.blocks_lines {i : Item} (h : i.solid = true) : ∃ said, Blocks 0 said i.lines := by
  cases i with
  | comment t => exact ⟨_, .comment h .nil⟩
  | classDef c => exact ⟨_, c.blocks_lines 0 h⟩
  | function f => exact ⟨_, f.blocks_lines 0 h⟩

namespace Fragment

theorem blocks_linesAfter : ∀ (before : Item) (items : List Item), solid items = true →
    ∃ said, Blocks 0 said (linesAfter before items)
  | _, [], _ => ⟨_, .nil⟩
  | before, item :: items, h => by
    obtain ⟨hi, h⟩ := Bool.and_eq_true_iff.mp h
    obtain ⟨said, hitem⟩ := Item.blocks_lines hi
    obtain ⟨also, hrest⟩ := blocks_linesAfter item items h
    have hlines := hitem.append hrest
    refine ⟨said || also, ?_⟩
    unfold linesAfter
    rw [List.append_assoc]
    split
    · exact .blank hlines
    · exact hlines

/-- The text of a solid fragment is made of blocks. -/
theorem blockStructured_text {f : Fragment} (h : f.solid = true) : BlockStructured f.text := by
  cases f with
  | nil => exact Blocks.nil.blockStructured
  | cons item items =>
    obtain ⟨hi, h⟩ := Bool.and_eq_true_iff.mp h
    obtain ⟨said, hitem⟩ := Item.blocks_lines hi
    obtain ⟨also, hrest⟩ := blocks_linesAfter item items h
    exact (hitem.append hrest).blockStructured

end Fragment

end WrapGen.Code
