import WrapGen.Code.FragmentText
import WrapGen.Proofs.Code.Solid

/-!
# Bodies that say something

The lines of a fragment are printed a second time, each with a note whether it opens a
block (`Fragment.rows`), and `Bodied` asks of such rows that below every line that opens
a block something is said one level deeper before the block ends. Printing takes care of
blocks without statements only. A block of comments and blank lines, or of conditions
without a branch, gets no line for doing nothing.

* `Printed`: what printed rows are like, with a lemma for each way to put rows together.
* `Fragment.map_rows`: the rows are the lines.
* `Fragment.bodied_rows_iff`: the bodies say something when every block either has no
  statements or has one that says something, and only then.
-/
namespace WrapGen.Code

open Text (Line isBlank)

/-! ## Rows -/

/-- A printed line, with a note whether it opens a block. -/
inductive Row where
  | plain (line : Line)
  | head (level : Nat) (text : String)

/-- Whether a text is neither blank nor a comment. -/
def shows (t : String) : Bool := (t.toList.find? fun c => !isBlank c).any (· != '#')

namespace Row

/-- The line of a row. -/
def line : Row → Line
  | plain l => l
  | head level text => .content level text

/-- Whether a row is deeper than a level; a blank one is, wherever it stands. -/
def isDeeper (level : Nat) (r : Row) : Bool :=
  match r.line with
  | .blank => true
  | .content l _ => level < l

/-- Whether a row is of a level and neither blank nor a comment. -/
def speaks (level : Nat) (r : Row) : Bool :=
  match r.line with
  | .blank => false
  | .content l t => l == level && shows t

end Row

/-- Below every row that opens a block there is one, one level deeper and before the block
ends, that is neither blank nor a comment. -/
def Bodied (rows : List Row) : Prop :=
  ∀ level text below, Row.head level text :: below <:+ rows →
    ∃ r ∈ below.takeWhile (Row.isDeeper level), r.speaks (level + 1) = true

/-! ## Putting rows together -/

/-- Rows of a level: none is less deep, none is a body for the rows before them, and it is
known whether one of the level speaks and whether all their blocks have bodies. -/
structure Printed (n : Nat) (rows : List Row) (said bodied : Bool) : Prop where
  within : ∀ r ∈ rows, ∀ m < n, r.isDeeper m = true
  apart : ∀ m, n ≤ m → ∀ r ∈ rows.takeWhile (Row.isDeeper m), r.speaks (m + 1) = false
  said : (∃ r ∈ rows, r.speaks n = true) ↔ said = true
  bodied : Bodied rows ↔ bodied = true

theorem bodied_nil : Bodied [] := by
  intro level text below h
  simp at h

theorem bodied_plain_cons {l : Line} {rows : List Row} :
    Bodied (.plain l :: rows) ↔ Bodied rows := by
  refine ⟨fun h level text below hs => h level text below (hs.trans (List.suffix_cons _ _)),
    fun h level text below hs => ?_⟩
  rcases List.suffix_cons_iff.mp hs with heq | hs
  · cases (List.cons.inj heq).1
  · exact h level text below hs

theorem bodied_head_cons {n : Nat} {t : String} {rows : List Row} :
    Bodied (.head n t :: rows) ↔
      (∃ r ∈ rows.takeWhile (Row.isDeeper n), r.speaks (n + 1) = true) ∧ Bodied rows := by
  refine ⟨fun h => ⟨h n t rows (List.suffix_refl _),
    fun level text below hs => h level text below (hs.trans (List.suffix_cons _ _))⟩, ?_⟩
  rintro ⟨hbody, h⟩ level text below hs
  rcases List.suffix_cons_iff.mp hs with heq | hs
  · cases heq
    exact hbody
  · exact h level text below hs

namespace Printed

variable {n : Nat} {t : String} {as bs inner : List Row} {a b p q : Bool}

theorem nil : Printed n [] false true :=
  ⟨by simp, by simp, by simp, by simp [bodied_nil]⟩

theorem blank : Printed n [.plain .blank] false true where
  within := by simp [Row.isDeeper, Row.line]
  apart m _ r hr := by
    cases List.mem_singleton.mp ((List.takeWhile_prefix _).subset hr)
    rfl
  said := by simp [Row.speaks, Row.line]
  bodied := by simp [bodied_plain_cons, bodied_nil]

theorem line : Printed n [.plain (.content n t)] (shows t) true where
  within := by simp [Row.isDeeper, Row.line]
  apart m hm r hr := by
    have hstop : Row.isDeeper m (.plain (.content n t)) = false := by
      simpa [Row.isDeeper, Row.line]
    simp [hstop] at hr
  said := by simp [Row.speaks, Row.line]
  bodied := by simp [bodied_plain_cons, bodied_nil]

/-- A row that opens a block, and the block one level deeper. -/
theorem block (ht : shows t = true) (h : Printed (n + 1) inner a p) :
    Printed n (.head n t :: inner) true (a && p) where
  within := by
    refine List.forall_mem_cons.mpr ⟨fun m hm => ?_, fun r hr m hm => h.within r hr m (by omega)⟩
    simpa [Row.isDeeper, Row.line] using hm
  apart m hm r hr := by
    have hstop : Row.isDeeper m (.head n t) = false := by simpa [Row.isDeeper, Row.line]
    simp [hstop] at hr
  said := by simp [Row.speaks, Row.line, ht]
  bodied := by
    -- every row of the block is deeper
    have hall : inner.takeWhile (Row.isDeeper n) = inner :=
      List.takeWhile_eq_self_iff.mpr fun r hr => h.within r hr n (Nat.lt_succ_self n)
    rw [bodied_head_cons, hall, h.said, h.bodied, Bool.and_eq_true]

/-- What follows on the level of a block or above does not count as its body. -/
theorem exists_speaks_append (hb : Printed n bs b q) {m : Nat} (hm : n ≤ m) (rows : List Row) :
    (∃ r ∈ (rows ++ bs).takeWhile (Row.isDeeper m), r.speaks (m + 1) = true) ↔
      ∃ r ∈ rows.takeWhile (Row.isDeeper m), r.speaks (m + 1) = true := by
  rw [List.takeWhile_append]
  split
  · next hall =>
    rw [(List.takeWhile_prefix _).eq_of_length hall]
    refine ⟨?_, fun ⟨r, hr, hspeaks⟩ => ⟨r, List.mem_append_left _ hr, hspeaks⟩⟩
    rintro ⟨r, hr, hspeaks⟩
    rcases List.mem_append.mp hr with hr | hr
    · exact ⟨r, hr, hspeaks⟩
    · rw [hb.apart m hm r hr] at hspeaks
      cases hspeaks
  · rfl

/-- The bodies are those of both parts. -/
theorem bodied_append (has : ∀ r ∈ as, ∀ m < n, r.isDeeper m = true) (hb : Printed n bs b q) :
    Bodied (as ++ bs) ↔ Bodied as ∧ Bodied bs := by
  induction as with
  | nil => simp [bodied_nil]
  | cons r as ih =>
    obtain ⟨hr, hrest⟩ := List.forall_mem_cons.mp has
    cases r with
    | plain l => rw [List.cons_append, bodied_plain_cons, bodied_plain_cons, ih hrest]
    | head m t =>
      have hm : n ≤ m := by
        by_contra hlt
        simpa [Row.isDeeper, Row.line] using hr m (by omega)
      rw [List.cons_append, bodied_head_cons, bodied_head_cons, ih hrest,
        hb.exists_speaks_append hm, and_assoc]

/-- Rows of a level may follow one another. -/
theorem append (ha : Printed n as a p) (hb : Printed n bs b q) :
    Printed n (as ++ bs) (a || b) (p && q) where
  within := List.forall_mem_append.mpr ⟨ha.within, hb.within⟩
  apart m hm r hr := by
    rw [← Bool.not_eq_true]
    intro hspeaks
    obtain ⟨r', hr', hspeaks'⟩ := (hb.exists_speaks_append hm as).mp ⟨r, hr, hspeaks⟩
    rw [ha.apart m hm r' hr'] at hspeaks'
    cases hspeaks'
  said := by
    rw [Bool.or_eq_true, ← ha.said, ← hb.said]
    simp only [List.mem_append, or_and_right, exists_or]
  bodied := by rw [Bool.and_eq_true, ← ha.bodied, ← hb.bodied, bodied_append ha.within hb]

end Printed

/-! ## What is said -/

theorem shows_append {s : String} (h : shows s = true) (t : String) : shows (s ++ t) = true := by
  unfold shows at *
  rw [String.toList_append, List.find?_append]
  cases hfind : s.toList.find? fun c => !isBlank c with
  | none => rw [hfind] at h; cases h
  | some c => rwa [hfind] at h

theorem shows_comment (t : String) : shows ("# " ++ t) = false := by
  rw [shows, String.toList_append]
  rfl

/-! ## Statements -/

namespace Stmt

mutual

/-- The rows of a statement. -/
def rows (level : Nat) : Stmt → List Row
  | .branch arms otherwise => armRows level "if " arms ++ elseRows level otherwise
  | .forEach ts e body =>
    .head level ("for " ++ ", ".intercalate ts ++ " in " ++ e.text ++ ":") ::
      blockRows (level + 1) body
  | .loop c body => .head level ("while " ++ c.text ++ ":") :: blockRows (level + 1) body
  | .attempt body x handler =>
    .head level "try:" :: blockRows (level + 1) body ++
      .head level ("except " ++ x ++ ":") :: blockRows (level + 1) handler
  | s => (s.lines level).map .plain
termination_by structural s => s

/-- The rows of a block. -/
def blockRows (level : Nat) : List Stmt → List Row
  | [] => (passLines level).map .plain
  | s :: ss => s.rows level ++ restRows level ss
termination_by structural ss => ss

/-- The rows of the further statements of a block. -/
def restRows (level : Nat) : List Stmt → List Row
  | [] => []
  | s :: ss => s.rows level ++ restRows level ss
termination_by structural ss => ss

/-- The rows of conditions and their blocks. -/
def armRows (level : Nat) (keyword : String) : List (Expr × List Stmt) → List Row
  | [] => []
  | (c, body) :: arms =>
    .head level (keyword ++ c.text ++ ":") :: blockRows (level + 1) body ++
      armRows level "elif " arms
termination_by structural arms => arms

/-- The rows of the block for no condition. -/
def elseRows (level : Nat) : Option (List Stmt) → List Row
  | none => []
  | some body => .head level "else:" :: blockRows (level + 1) body
termination_by structural body => body

end

/-- Whether a statement has a line on its level that is neither blank nor a comment. -/
def speaks : Stmt → Bool
  | .assign target value => shows (target.text ++ " = " ++ value.text)
  | .expr e => shows e.text
  | s => s.hasCode

/-- Whether a block has such a line; one without statements gets it. -/
def blockSpeaks (ss : List Stmt) : Bool := ss.isEmpty || ss.any speaks

mutual

/-- Whether the blocks in a statement have such a line. -/
def bodied : Stmt → Bool
  | .branch arms otherwise => armsBodied arms && elseBodied otherwise
  | .forEach _ _ body | .loop _ body => blockSpeaks body && allBodied body
  | .attempt body _ handler =>
    (blockSpeaks body && allBodied body) && (blockSpeaks handler && allBodied handler)
  | _ => true
termination_by structural s => s

/-- Whether the blocks in the statements of a list have. -/
def allBodied : List Stmt → Bool
  | [] => true
  | s :: ss => s.bodied && allBodied ss
termination_by structural ss => ss

/-- Whether the blocks of conditions have. -/
def armsBodied : List (Expr × List Stmt) → Bool
  | [] => true
  | (_, body) :: arms => (blockSpeaks body && allBodied body) && armsBodied arms
termination_by structural arms => arms

/-- Whether a block that may be absent has. -/
def elseBodied : Option (List Stmt) → Bool
  | none => true
  | some body => blockSpeaks body && allBodied body
termination_by structural body => body

end

mutual

/-- The rows of a statement are its lines. -/
theorem map_rows (level : Nat) : ∀ s : Stmt, (s.rows level).map Row.line = s.lines level
  | .branch arms otherwise => by
    rw [rows, lines, List.map_append, map_armRows, map_elseRows]
  | .forEach ts e body => by
    rw [rows, lines, List.map_cons, map_blockRows]
    rfl
  | .loop c body => by
    rw [rows, lines, List.map_cons, map_blockRows]
    rfl
  | .attempt body x handler => by
    simp only [rows, lines, List.map_append, List.map_cons, map_blockRows]
    simp [Row.line, line]
  | .decl .. | .assign .. | .expr _ | .ret none | .ret (some _) | .raise _ | .delete _
  | .comment _ | .blank => rfl
termination_by structural s => s

theorem map_blockRows (level : Nat) : ∀ ss : List Stmt,
    (blockRows level ss).map Row.line = blockLines level ss
  | [] => rfl
  | s :: ss => by rw [blockRows, blockLines, List.map_append, map_rows level s, map_restRows]
termination_by structural ss => ss

theorem map_restRows (level : Nat) : ∀ ss : List Stmt,
    (restRows level ss).map Row.line = restLines level ss
  | [] => rfl
  | s :: ss => by rw [restRows, restLines, List.map_append, map_rows level s, map_restRows]
termination_by structural ss => ss

theorem map_armRows (level : Nat) (keyword : String) : ∀ arms : List (Expr × List Stmt),
    (armRows level keyword arms).map Row.line = armLines level keyword arms
  | [] => rfl
  | (c, body) :: arms => by
    rw [armRows, armLines, List.map_append, List.map_cons, map_blockRows, map_armRows]
    rfl
termination_by structural arms => arms

theorem map_elseRows (level : Nat) : ∀ otherwise : Option (List Stmt),
    (elseRows level otherwise).map Row.line = elseLines level otherwise
  | none => rfl
  | some body => by
    rw [elseRows, elseLines, List.map_cons, map_blockRows]
    rfl
termination_by structural otherwise => otherwise

end

/-- A line that starts with a word. -/
theorem printed_word {n : Nat} {word : String} (h : shows word = true) (t : String) :
    Printed n [.plain (.content n (word ++ t))] true true := by
  have hline := Printed.line (n := n) (t := word ++ t)
  rwa [shows_append h] at hline

mutual

/-- The rows of a statement are printed on its level, and what they say is known. -/
theorem printed_rows (n : Nat) : ∀ s : Stmt, Printed n (s.rows n) s.speaks s.bodied
  | .branch arms otherwise => by
    have h := (printed_armRows n "if " (by decide) arms).append (printed_elseRows n otherwise)
    exact h
  | .forEach ts e body => by
    refine .block ?_ (printed_blockRows (n + 1) body)
    simp only [String.append_assoc]
    exact shows_append (by decide) _
  | .loop c body => by
    refine .block ?_ (printed_blockRows (n + 1) body)
    simp only [String.append_assoc]
    exact shows_append (by decide) _
  | .attempt body x handler => by
    have hx : shows ("except " ++ x ++ ":") = true :=
      shows_append (shows_append (by decide) _) _
    exact (Printed.block (by decide) (printed_blockRows (n + 1) body)).append
      (.block hx (printed_blockRows (n + 1) handler))
  | .decl t e => printed_word (shows_append (shows_append (by decide) _) _) _
  | .assign _ _ => .line
  | .expr _ => .line
  | .ret none => by
    have h := Printed.line (n := n) (t := "return")
    exact h
  | .ret (some v) => printed_word (by decide) _
  | .raise _ => printed_word (by decide) _
  | .delete _ => printed_word (by decide) _
  | .comment t => by
    have h := Printed.line (n := n) (t := "# " ++ t)
    rwa [shows_comment] at h
  | .blank => .blank
termination_by structural s => s

theorem printed_blockRows (n : Nat) : ∀ ss : List Stmt,
    Printed n (blockRows n ss) (blockSpeaks ss) (allBodied ss)
  | [] => by
    have h := Printed.line (n := n) (t := "pass")
    exact h
  | s :: ss => (printed_rows n s).append (printed_restRows n ss)
termination_by structural ss => ss

theorem printed_restRows (n : Nat) : ∀ ss : List Stmt,
    Printed n (restRows n ss) (ss.any speaks) (allBodied ss)
  | [] => .nil
  | s :: ss => (printed_rows n s).append (printed_restRows n ss)
termination_by structural ss => ss

theorem printed_armRows (n : Nat) (keyword : String) (hk : shows keyword = true) :
    ∀ arms : List (Expr × List Stmt),
      Printed n (armRows n keyword arms) (!arms.isEmpty) (armsBodied arms)
  | [] => .nil
  | (c, body) :: arms =>
    (Printed.block (shows_append (shows_append hk _) _) (printed_blockRows (n + 1) body)).append
      (printed_armRows n "elif " (by decide) arms)
termination_by structural arms => arms

theorem printed_elseRows (n : Nat) : ∀ otherwise : Option (List Stmt),
    Printed n (elseRows n otherwise) otherwise.isSome (elseBodied otherwise)
  | none => .nil
  | some body => .block (by decide) (printed_blockRows (n + 1) body)
termination_by structural otherwise => otherwise

end

end Stmt

/-! ## Functions, classes and fragments -/

/-- Lines that open no block. -/
def plainRows (lines : List Line) : List Row := lines.map .plain

theorem map_plainRows (lines : List Line) : (plainRows lines).map Row.line = lines := by
  rw [plainRows, List.map_map]
  exact List.map_id lines

theorem plainRows_append (ls ms : List Line) :
    plainRows (ls ++ ms) = plainRows ls ++ plainRows ms :=
  List.map_append ..

/-- A line of a level by itself. -/
theorem printed_line (n : Nat) (t : String) : Printed n (plainRows (line n t)) (shows t) true :=
  .line

/-- A doc text speaks with its marks. -/
theorem printed_docRows (n : Nat) (doc : String) :
    Printed n (plainRows (docLines n doc)) true true := by
  have hmark (t : String) : Printed n (plainRows (line n (docMark ++ t))) true true :=
    Stmt.printed_word (by decide) t
  have hfurther : ∀ rest : List (List Char), ∃ said, Printed n (plainRows (rest.map fun cs =>
      if cs.isEmpty then .blank else .content n (String.ofList cs))) said true := by
    intro rest
    induction rest with
    | nil => exact ⟨_, .nil⟩
    | cons cs rest ih =>
      obtain ⟨said, ih⟩ := ih
      rw [List.map_cons]
      split
      · exact ⟨_, Printed.blank.append ih⟩
      · exact ⟨_, Printed.line.append ih⟩
  unfold docLines
  dsimp only
  split
  · exact (hmark "").append (hmark "")
  · next first rest _ =>
    obtain ⟨said, hrest⟩ := hfurther rest
    rw [plainRows_append, plainRows_append, List.append_assoc]
    exact (hmark _).append (hrest.append (hmark ""))

namespace Function

/-- The rows of the body of a function. -/
def bodyRows (level : Nat) (doc : Option String) (body : List Stmt) : List Row :=
  match doc, body with
  | none, body => Stmt.blockRows level body
  | some d, [] => plainRows (docLines level d)
  | some d, body => plainRows (docLines level d) ++ Stmt.blockRows level body

/-- The rows of a function. -/
def rows (level : Nat) (f : Function) : List Row :=
  match f.body with
  | none => plainRows (line level f.headText)
  | some body => .head level (f.headText ++ ":") :: bodyRows (level + 1) f.doc body

/-- Whether the blocks of a function have bodies; a doc text is one. -/
def bodied (f : Function) : Bool :=
  f.body.all fun body => (f.doc.isSome || Stmt.blockSpeaks body) && Stmt.allBodied body

theorem map_bodyRows (level : Nat) (doc : Option String) (body : List Stmt) :
    (bodyRows level doc body).map Row.line = bodyLines level doc body := by
  cases doc with
  | none => exact Stmt.map_blockRows _ _
  | some d =>
    cases body with
    | nil => exact map_plainRows _
    | cons s ss =>
      rw [bodyRows, bodyLines, List.map_append, map_plainRows, Stmt.map_blockRows] <;> simp

theorem map_rows (level : Nat) (f : Function) : (f.rows level).map Row.line = f.lines level := by
  unfold rows lines
  cases f.body with
  | none => exact map_plainRows _
  | some body =>
    rw [List.map_cons, map_bodyRows]
    rfl

theorem shows_headText (f : Function) : shows f.headText = true := by
  unfold headText
  refine shows_append (shows_append (shows_append (shows_append ?_ _) _) _) _
  split
  · decide
  · exact shows_append (shows_append (by decide) _) _
  · decide

theorem printed_bodyRows (n : Nat) (doc : Option String) (body : List Stmt) :
    Printed n (bodyRows n doc body) (doc.isSome || Stmt.blockSpeaks body) (Stmt.allBodied body) := by
  unfold bodyRows
  split
  · exact Stmt.printed_blockRows n body
  · exact printed_docRows n _
  · exact (printed_docRows n _).append (Stmt.printed_blockRows n body)

theorem printed_rows (n : Nat) (f : Function) : Printed n (f.rows n) true f.bodied := by
  have hhead := f.shows_headText
  unfold rows bodied
  cases f.body with
  | none =>
    have h := Printed.line (n := n) (t := f.headText)
    rwa [hhead] at h
  | some body => exact .block (shows_append hhead _) (printed_bodyRows (n + 1) f.doc body)

end Function

namespace ClassDef

/-- The rows of methods. -/
def methodRows (level : Nat) : Bool → List Function → List Row
  | _, [] => []
  | first, m :: ms =>
    plainRows (if !first && !m.isDeclaration then [.blank] else []) ++ m.rows level ++
      methodRows level false ms

/-- Rows, or the row that does nothing. -/
def orPass (level : Nat) : List Row → List Row
  | [] => plainRows (passLines level)
  | rows => rows

/-- The rows inside a class. -/
def bodyRows (level : Nat) (c : ClassDef) : List Row :=
  let doc := match c.doc with
    | some d => docLines level d
    | none => []
  let fields := c.fields.flatMap fun f => line level f.text
  orPass level (plainRows (doc ++ fields) ++
    methodRows level (c.doc.isNone && c.fields.isEmpty) c.methods)

/-- The rows of a class. -/
def rows (level : Nat) (c : ClassDef) : List Row :=
  .head level c.headText :: c.bodyRows (level + 1)

theorem map_methodRows (level : Nat) : ∀ (first : Bool) (ms : List Function),
    (methodRows level first ms).map Row.line = methodLines level first ms
  | _, [] => rfl
  | first, m :: ms => by
    rw [methodRows, methodLines, List.map_append, List.map_append, map_plainRows, m.map_rows,
      map_methodRows level false ms]

theorem map_orPass (level : Nat) (rows : List Row) : (orPass level rows).map Row.line =
    match rows.map Row.line with
    | [] => passLines level
    | lines => lines := by
  cases rows with
  | nil => exact map_plainRows _
  | cons => rfl

theorem map_bodyRows (level : Nat) (c : ClassDef) :
    (c.bodyRows level).map Row.line = c.bodyLines level := by
  have h := map_orPass level (plainRows ((match c.doc with
      | some d => docLines level d
      | none => []) ++ c.fields.flatMap fun f => line level f.text) ++
    methodRows level (c.doc.isNone && c.fields.isEmpty) c.methods)
  rw [List.map_append, map_plainRows, map_methodRows] at h
  exact h

theorem printed_methodRows (n : Nat) : ∀ (first : Bool) (ms : List Function),
    Printed n (methodRows n first ms) (!ms.isEmpty) (ms.all Function.bodied)
  | _, [] => .nil
  | first, m :: ms => by
    have hgap : Printed n (plainRows (if !first && !m.isDeclaration then [.blank] else []))
        false true := by
      split
      · exact .blank
      · exact .nil
    exact (hgap.append (m.printed_rows n)).append (printed_methodRows n false ms)

theorem printed_fieldRows (n : Nat) : ∀ fields : List Field,
    Printed n (plainRows (fields.flatMap fun f => line n f.text)) (!fields.isEmpty) true
  | [] => .nil
  | f :: fs => by
    have hf : Printed n (plainRows (line n f.text)) true true := by
      have h := printed_line n f.text
      rwa [Field.text, shows_append (shows_append (shows_append (shows_append (by decide) _) _) _) _]
        at h
    rw [List.flatMap_cons, plainRows_append]
    exact hf.append (printed_fieldRows n fs)

/-- With the row that does nothing where there are none, some row speaks. -/
theorem printed_orPass {n : Nat} {rows : List Row} {said bodied : Bool}
    (h : Printed n rows said bodied) (hnil : said = false → rows = []) :
    Printed n (orPass n rows) true bodied := by
  cases rows with
  | nil =>
    rw [h.bodied.mp bodied_nil]
    exact printed_line n "pass"
  | cons r rows =>
    cases said with
    | false => cases hnil rfl
    | true => exact h

theorem printed_bodyRows (n : Nat) (c : ClassDef) :
    Printed n (c.bodyRows n) true (c.methods.all Function.bodied) := by
  have hdoc : Printed n (plainRows (match c.doc with
      | some d => docLines n d
      | none => [])) c.doc.isSome true := by
    cases c.doc with
    | none => exact .nil
    | some d => exact printed_docRows n d
  unfold bodyRows
  dsimp only
  rw [plainRows_append]
  refine printed_orPass ((hdoc.append (printed_fieldRows n c.fields)).append
    (printed_methodRows n _ c.methods)) fun hsaid => ?_
  simp only [Bool.or_eq_false_iff, Bool.not_eq_false', List.isEmpty_iff,
    Option.isSome_eq_false_iff, Option.isNone_iff_eq_none] at hsaid
  obtain ⟨⟨hdoc, hfields⟩, hmethods⟩ := hsaid
  rw [hdoc, hfields, hmethods]
  rfl

theorem shows_headText (c : ClassDef) : shows c.headText = true := by
  unfold headText
  refine shows_append (shows_append (shows_append ?_ _) _) _
  split <;> decide

theorem printed_rows (n : Nat) (c : ClassDef) :
    Printed n (c.rows n) true (c.methods.all Function.bodied) :=
  .block c.shows_headText (c.printed_bodyRows (n + 1))

end ClassDef

namespace Item

/-- The rows of an item. -/
def rows : Item → List Row
  | comment t => plainRows (line 0 ("# " ++ t))
  | classDef c => c.rows 0
  | function f => f.rows 0

/-- Whether the blocks of an item have bodies; a class always has one. -/
def bodied : Item → Bool
  | comment _ => true
  | classDef c => c.methods.all Function.bodied
  | function f => f.bodied

theorem map_rows (item : Item) : item.rows.map Row.line = item.lines := by
  cases item with
  | comment t => exact map_plainRows _
  | classDef c =>
    rw [rows, ClassDef.rows, List.map_cons, c.map_bodyRows]
    rfl
  | function f => exact f.map_rows 0

theorem printed_rows (item : Item) : ∃ said, Printed 0 item.rows said item.bodied := by
  cases item with
  | comment t => exact ⟨_, printed_line 0 _⟩
  | classDef c => exact ⟨_, c.printed_rows 0⟩
  | function f => exact ⟨_, f.printed_rows 0⟩

end Item

namespace Fragment

/-- The rows of the items that follow the item `before`. -/
def rowsAfter (before : Item) : List Item → List Row
  | [] => []
  | item :: items =>
    plainRows (if before.needsGap item then [.blank] else []) ++ item.rows ++ rowsAfter item items

/-- The rows of a fragment. -/
def rows : Fragment → List Row
  | [] => []
  | item :: items => item.rows ++ rowsAfter item items

/-- Whether the blocks of a fragment have bodies. -/
def bodied (f : Fragment) : Bool := f.all Item.bodied

theorem map_rowsAfter : ∀ (before : Item) (items : List Item),
    (rowsAfter before items).map Row.line = linesAfter before items
  | _, [] => rfl
  | before, item :: items => by
    rw [rowsAfter, linesAfter, List.map_append, List.map_append, map_plainRows, item.map_rows,
      map_rowsAfter item items]

/-- The rows of a fragment are its lines. -/
theorem map_rows (f : Fragment) : (rows f).map Row.line = lines f := by
  cases f with
  | nil => rfl
  | cons item items => rw [rows, lines, List.map_append, item.map_rows, map_rowsAfter]

theorem printed_rowsAfter : ∀ (before : Item) (items : List Item),
    ∃ said, Printed 0 (rowsAfter before items) said (items.all Item.bodied)
  | _, [] => ⟨_, .nil⟩
  | before, item :: items => by
    have hgap : Printed 0 (plainRows (if before.needsGap item then [.blank] else [])) false true := by
      split
      · exact .blank
      · exact .nil
    obtain ⟨_, hitem⟩ := item.printed_rows
    obtain ⟨_, hitems⟩ := printed_rowsAfter item items
    exact ⟨_, (hgap.append hitem).append hitems⟩

theorem printed_rows (f : Fragment) : ∃ said, Printed 0 (rows f) said (bodied f) := by
  cases f with
  | nil => exact ⟨_, .nil⟩
  | cons item items =>
    obtain ⟨_, hitem⟩ := item.printed_rows
    obtain ⟨_, hitems⟩ := printed_rowsAfter item items
    exact ⟨_, hitem.append hitems⟩

/-- The text of a fragment is that of its rows, and below every row that opens a block
something is said when all its blocks have no statements or one that speaks, and only
then. -/
theorem bodied_rows_iff (f : Fragment) :
    text f = Line.textAll ((rows f).map Row.line) ∧ (Bodied (rows f) ↔ bodied f = true) := by
  obtain ⟨_, h⟩ := printed_rows f
  exact ⟨by rw [map_rows, text], h.bodied⟩

/-- A body with only a comment is printed as it is. -/
theorem not_bodied_comment :
    let f : Fragment := [.function (.hostCallable "f" [] [.comment "todo"])]
    text f = "def f():\n    # todo\n" ∧ ¬ Bodied (rows f) := by
  refine ⟨by decide, fun h => ?_⟩
  obtain ⟨_, hprinted⟩ := printed_rows [.function (.hostCallable "f" [] [.comment "todo"])]
  exact absurd (hprinted.bodied.mp h) (by decide)

end Fragment

end WrapGen.Code
