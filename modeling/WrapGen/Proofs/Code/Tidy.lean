import WrapGen.Proofs.Code.Scoping

/-!
# Classes of names

The names that generated code makes up end in one of a few words. What it declares or
assigns to ends in other words than what it loops over, and no name that it takes
from outside ends in any of them; so these classes stay apart at every nesting.
Beside them a function has a few fixed names.

* `Tidy`: a block declares nothing and keeps to the classes and to fixed names.
* `Function.wellScoped_of_tidy`: a function whose block is tidy is well-scoped if
  its paths are covered.
-/
namespace WrapGen.Code

/-! ## Names by their ends -/

/-- A name ends in one of some words. -/
def EndsIn (ends : List String) (x : String) : Prop := ∃ e ∈ ends, e.toList <:+ x.toList

instance (ends : List String) (x : String) : Decidable (EndsIn ends x) :=
  inferInstanceAs (Decidable (∃ e ∈ ends, e.toList <:+ x.toList))

theorem endsIn_append {ends : List String} {e : String} (he : e ∈ ends) (p : String) :
    EndsIn ends (p ++ e) :=
  ⟨e, he, p.toList, by rw [String.toList_append]⟩

/-- No name ends in a word of both lists if no word of one ends in a word of the other. -/
theorem EndsIn.apart {ends others : List String} {x : String}
    (hne : ∀ e ∈ ends, ∀ o ∈ others, ¬ e.toList <:+ o.toList ∧ ¬ o.toList <:+ e.toList)
    (h : EndsIn ends x) : ¬ EndsIn others x := by
  rintro ⟨o, ho, hox⟩
  obtain ⟨e, he, hex⟩ := h
  rcases List.suffix_or_suffix_of_suffix hex hox with hs | hs
  · exact (hne e he o ho).1 hs
  · exact (hne e he o ho).2 hs

/-- A name that a conversion declares or assigns to. -/
def IsTemporary : String → Prop := EndsIn ["_cpp", "_py", "_iter", "_bytes", "_proxy"]

/-- A name that a conversion loops over. -/
def IsLoopName : String → Prop := EndsIn ["_item", "_key", "_val"]

/-- A name that a conversion takes from outside: a host type, or the storage type of
a container, whose arguments stand in brackets. -/
def IsGlobal (x : String) : Prop :=
  x ∈ ["bytes", "complex", "float", "int", "set"] ∨ EndsIn ["]"] x

instance : DecidablePred IsTemporary := fun _ => inferInstanceAs (Decidable (EndsIn _ _))

instance : DecidablePred IsLoopName := fun _ => inferInstanceAs (Decidable (EndsIn _ _))

instance : DecidablePred IsGlobal := fun _ => inferInstanceAs (Decidable (_ ∨ EndsIn _ _))

theorem IsTemporary.not_isLoopName {x : String} (h : IsTemporary x) : ¬ IsLoopName x :=
  EndsIn.apart (by decide) h

theorem IsGlobal.not_isTemporary {x : String} : IsGlobal x → ¬ IsTemporary x
  | .inl h => by
    have hall : ∀ y ∈ ["bytes", "complex", "float", "int", "set"], ¬ IsTemporary y := by decide
    exact hall x h
  | .inr h => EndsIn.apart (by decide) h

theorem IsGlobal.not_isLoopName {x : String} : IsGlobal x → ¬ IsLoopName x
  | .inl h => by
    have hall : ∀ y ∈ ["bytes", "complex", "float", "int", "set"], ¬ IsLoopName y := by decide
    exact hall x h
  | .inr h => EndsIn.apart (by decide) h

/-! ## Tidy blocks -/

namespace Stmt

mutual

/-- A statement declares nothing, and apart from some fixed names it assigns to
temporaries and loops over loop names. -/
@[simp] def Tidy (fixed loops : List String) : Stmt → Prop
  | .decl _ _ => False
  | .assign (.name x) _ => IsTemporary x ∨ x ∈ fixed
  | .branch arms otherwise => TidyArms fixed loops arms ∧ TidyOption fixed loops otherwise
  | .forEach targets _ body =>
    (∀ x ∈ targets, IsLoopName x ∨ x ∈ loops) ∧ TidyAll fixed loops body
  | .loop _ body => TidyAll fixed loops body
  | .attempt body _ handler => TidyAll fixed loops body ∧ TidyAll fixed loops handler
  | _ => True
termination_by structural s => s

/-- All statements of a block are tidy. -/
@[simp] def TidyAll (fixed loops : List String) : List Stmt → Prop
  | [] => True
  | s :: ss => s.Tidy fixed loops ∧ TidyAll fixed loops ss
termination_by structural ss => ss

/-- The blocks of conditions are tidy. -/
@[simp] def TidyArms (fixed loops : List String) : List (Expr × List Stmt) → Prop
  | [] => True
  | (_, body) :: arms => TidyAll fixed loops body ∧ TidyArms fixed loops arms
termination_by structural arms => arms

/-- A block that may be absent is tidy. -/
@[simp] def TidyOption (fixed loops : List String) : Option (List Stmt) → Prop
  | none => True
  | some body => TidyAll fixed loops body
termination_by structural body => body

end

variable {fixed loops : List String}

@[simp] theorem tidyAll_append : ∀ {ss ts : List Stmt},
    TidyAll fixed loops (ss ++ ts) ↔ TidyAll fixed loops ss ∧ TidyAll fixed loops ts
  | [], _ => by simp
  | s :: ss, ts => by
    rw [List.cons_append, TidyAll, TidyAll, tidyAll_append, and_assoc]

theorem tidyArms_iff {arms : List (Expr × List Stmt)} :
    TidyArms fixed loops arms ↔ ∀ arm ∈ arms, TidyAll fixed loops arm.2 := by
  induction arms with
  | nil => simp
  | cons arm arms ih => rw [TidyArms, ih, List.forall_mem_cons]

section
variable {e : Expr} {body other : List Stmt}

@[simp] theorem tidy_give : (give e).Tidy fixed loops := trivial

@[simp] theorem tidy_when : (when e body).Tidy fixed loops ↔ TidyAll fixed loops body := by
  simp [when]

@[simp] theorem tidy_ifElse : (ifElse e body other).Tidy fixed loops ↔
    TidyAll fixed loops body ∧ TidyAll fixed loops other := by
  simp [ifElse]

end

/-- What being tidy says of the statement itself. -/
structure Keeps (fixed loops : List String) (s : Stmt) : Prop where
  isDecl : s.isDecl = false
  loopTargets : ∀ x ∈ s.loopTargets, IsLoopName x ∨ x ∈ loops
  assignedName : ∀ x ∈ s.assignedName, IsTemporary x ∨ x ∈ fixed

/-- A statement that neither loops nor assigns to a name. -/
theorem Keeps.of_nil {s : Stmt} (hd : s.isDecl = false) (ht : s.loopTargets = [])
    (ha : s.assignedName = []) : s.Keeps fixed loops :=
  ⟨hd, ht ▸ List.forall_mem_nil _, ha ▸ List.forall_mem_nil _⟩

mutual

/-- The statements inside a tidy one are tidy. -/
theorem keeps_of_tidy : ∀ s : Stmt, s.Tidy fixed loops →
    ∀ t ∈ s.nested, t.Keeps fixed loops
  | .decl _ _, h => h.elim
  | .assign target value, h => by
    refine List.forall_mem_singleton.mpr ⟨rfl, List.forall_mem_nil _, fun x hx => ?_⟩
    cases target with
    | name y => exact List.mem_singleton.mp hx ▸ h
    | _ => cases hx
  | .branch arms otherwise, h => by
    refine List.forall_mem_cons.mpr ⟨.of_nil rfl rfl rfl, List.forall_mem_append.mpr ⟨?_, ?_⟩⟩
    · exact keepsArms_of_tidy arms h.1
    · exact keepsOption_of_tidy otherwise h.2
  | .forEach targets source body, h => by
    refine List.forall_mem_cons.mpr ⟨⟨rfl, h.1, List.forall_mem_nil _⟩, ?_⟩
    exact keepsAll_of_tidy body h.2
  | .loop condition body, h =>
    List.forall_mem_cons.mpr ⟨.of_nil rfl rfl rfl, keepsAll_of_tidy body h⟩
  | .attempt body exception handler, h => by
    refine List.forall_mem_cons.mpr ⟨.of_nil rfl rfl rfl, List.forall_mem_append.mpr ⟨?_, ?_⟩⟩
    · exact keepsAll_of_tidy body h.1
    · exact keepsAll_of_tidy handler h.2
  | .expr _, _ | .ret _, _ | .raise _, _ | .delete _, _ | .comment _, _ | .blank, _ =>
    List.forall_mem_singleton.mpr (.of_nil rfl rfl rfl)

theorem keepsAll_of_tidy : ∀ ss : List Stmt, TidyAll fixed loops ss →
    ∀ t ∈ nestedAll ss, t.Keeps fixed loops
  | [], _ => List.forall_mem_nil _
  | s :: ss, h =>
    List.forall_mem_append.mpr ⟨keeps_of_tidy s h.1, keepsAll_of_tidy ss h.2⟩

theorem keepsArms_of_tidy : ∀ arms : List (Expr × List Stmt), TidyArms fixed loops arms →
    ∀ t ∈ nestedArms arms, t.Keeps fixed loops
  | [], _ => List.forall_mem_nil _
  | (_, body) :: arms, h =>
    List.forall_mem_append.mpr ⟨keepsAll_of_tidy body h.1, keepsArms_of_tidy arms h.2⟩

theorem keepsOption_of_tidy : ∀ body : Option (List Stmt), TidyOption fixed loops body →
    ∀ t ∈ nestedOption body, t.Keeps fixed loops
  | none, _ => List.forall_mem_nil _
  | some body, h => keepsAll_of_tidy body h

end

end Stmt

/-! ## Functions -/

/-- A name is of no class and none of some names. -/
def Outside (names : List String) (x : String) : Prop :=
  ¬ IsTemporary x ∧ ¬ IsLoopName x ∧ x ∉ names

instance (names : List String) : DecidablePred (Outside names) :=
  fun _ => inferInstanceAs (Decidable (_ ∧ _ ∧ _))

/-- The names of a function apart from those that conversions make up stay apart: it
declares or assigns to those of `fixed`, loops over those of `loops`, and takes those of
`outer` from outside, parameters among them. -/
structure Apart (fixed loops outer : List String) : Prop where
  ofFixed : ∀ x ∈ fixed, ¬ IsTemporary x ∧ ¬ IsLoopName x ∧ ¬ IsGlobal x ∧ x ∉ loops
  ofLoops : ∀ x ∈ loops, ¬ IsTemporary x ∧ ¬ IsGlobal x
  ofOuter : ∀ x ∈ outer, Outside (fixed ++ loops) x

variable {f : Function} {ds : List Declaration} {block : List Stmt}
  {fixed loops outer : List String} {x : String}

instance : Decidable (Apart fixed loops outer) :=
  decidable_of_iff (_ ∧ _ ∧ _) ⟨fun h => ⟨h.1, h.2.1, h.2.2⟩, fun h => ⟨h.1, h.2, h.3⟩⟩

/-- What a conversion takes from outside is no name of the function. -/
theorem Apart.outside_global (h : Apart fixed loops outer) (hx : IsGlobal x) :
    Outside (fixed ++ loops) x := by
  refine ⟨hx.not_isTemporary, hx.not_isLoopName, fun hm => ?_⟩
  rcases List.mem_append.mp hm with hm | hm
  · exact (h.ofFixed x hm).2.2.1 hx
  · exact (h.ofLoops x hm).2 hx

/-- Distinct temporaries stay distinct with names before them that are none. -/
theorem nodup_fixed_append (hfixed : fixed.Nodup) (hnot : ∀ x ∈ fixed, ¬ IsTemporary x)
    (hds : (ds.map Declaration.name).Nodup) (htemporary : ∀ d ∈ ds, IsTemporary d.name) :
    (fixed ++ ds.map Declaration.name).Nodup := by
  refine List.nodup_append.mpr ⟨hfixed, hds, ?_⟩
  rintro x hx _ hm rfl
  obtain ⟨d, hd, rfl⟩ := List.mem_map.mp hm
  exact hnot _ hx (htemporary d hd)

/-- The local names of a tidy block and its declarations are of a class or fixed. -/
theorem Scope.not_outside_of_mem (hnames : ∀ d ∈ ds, IsTemporary d.name ∨ d.name ∈ fixed)
    (htidy : Stmt.TidyAll fixed loops block) (hx : x ∈ (Scope.of ds block).locals) :
    ¬ Outside (fixed ++ loops) x := by
  have hkeeps := Stmt.keepsAll_of_tidy block htidy
  rintro ⟨htemporary, hloop, hout⟩
  rw [List.mem_append, not_or] at hout
  rcases List.mem_append.mp hx with hx | hx
  · rcases List.mem_append.mp hx with hx | hx
    · obtain ⟨d, hd, rfl⟩ := List.mem_map.mp hx
      exact (hnames d hd).elim htemporary hout.1
    · obtain ⟨s, hs, hm⟩ := List.mem_flatMap.mp hx
      exact ((hkeeps s hs).loopTargets x hm).elim hloop hout.2
  · obtain ⟨s, hs, hm⟩ := List.mem_flatMap.mp hx
    exact ((hkeeps s hs).assignedName x hm).elim htemporary hout.1

/-- A function with a tidy block is well-scoped if what it declares are distinct
temporaries and fixed names, and its block is gone through when the names from outside
may be read. -/
theorem Function.wellScoped_of_tidy (hbody : f.body = some (ds.map Declaration.stmt ++ block))
    (hnodup : (ds.map Declaration.name).Nodup)
    (hnames : ∀ d ∈ ds, IsTemporary d.name ∨ d.name ∈ fixed)
    (hparams : ∀ x ∈ f.params.map Param.name, x ∈ outer) (hapart : Apart fixed loops outer)
    (htidy : Stmt.TidyAll fixed loops block)
    (htakes : ∀ (sc : Scope) (A : Set String), sc.Declares ds → (∀ x, IsGlobal x → x ∈ A) →
      (∀ x ∈ outer, x ∈ A) → sc.TakesAll A block ∅) : f.WellScoped := by
  have hkeeps := Stmt.keepsAll_of_tidy block htidy
  refine wellScoped_of_takes hbody hnodup (fun d hd hm => ?_)
    (fun s hs => ⟨(hkeeps s hs).isDecl, fun d hd hm => ?_⟩) ?_
  · obtain ⟨htemporary, -, hout⟩ := hapart.ofOuter _ (hparams _ hm)
    exact (hnames d hd).elim htemporary fun hf => hout (List.mem_append_left _ hf)
  · have hloop := (hkeeps s hs).loopTargets _ hm
    rcases hnames d hd with ht | hf
    · exact hloop.elim ht.not_isLoopName fun hl => (hapart.ofLoops _ hl).1 ht
    · obtain ⟨-, hnot, -, hne⟩ := hapart.ofFixed _ hf
      exact hloop.elim hnot hne
  · have htaken := htakes (Scope.of ds block) {x | Outside (fixed ++ loops) x} Scope.declares_of
      (fun _ => hapart.outside_global) hapart.ofOuter
    exact htaken.mono (fun x hx hm => Scope.not_outside_of_mem hnames htidy hm hx) subset_rfl

end WrapGen.Code
