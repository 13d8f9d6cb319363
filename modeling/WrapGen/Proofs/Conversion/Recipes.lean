import WrapGen.Conversion
import WrapGen.Proofs.Catalog.Entries
import WrapGen.Proofs.Execution.Runs
import WrapGen.Proofs.Naming.Stem

/-!
# The names in conversion code

The names that a conversion introduces are those it declares, assigns to or
loops over. All of them extend the stem of the source, and nothing else is
changed: `Recipe.LocalTo` says so of one recipe.

Main statements: the built-in catalog has code for every type in both
directions (`toStorage_builtin`, `toHost_builtin`), and whatever the nesting,
the code is local to its source.
-/
namespace WrapGen

open Code Execution Text

namespace Code

mutual

/-- The names that a statement declares, assigns to or loops over. -/
def Stmt.introduced : Stmt → List String
  | .decl _ target => root target
  | .assign (.name x) _ => [x]
  | .forEach targets _ body => targets ++ Stmt.introducedAll body
  | .loop _ body => Stmt.introducedAll body
  | .attempt body _ handler => Stmt.introducedAll body ++ Stmt.introducedAll handler
  | _ => []
termination_by structural s => s

/-- The names that the statements of a block introduce. -/
def Stmt.introducedAll : List Stmt → List String
  | [] => []
  | s :: ss => s.introduced ++ Stmt.introducedAll ss
termination_by structural ss => ss

end

theorem Stmt.introducedAll_append : ∀ ss ts : List Stmt,
    Stmt.introducedAll (ss ++ ts) = Stmt.introducedAll ss ++ Stmt.introducedAll ts
  | [], _ => rfl
  | s :: ss, ts => by
    rw [List.cons_append, Stmt.introducedAll, Stmt.introducedAll, Stmt.introducedAll_append ss ts,
      List.append_assoc]

/-- The names that a conversion introduces. -/
def Recipe.introduced (r : Recipe) : List String :=
  Stmt.introducedAll r.decls ++ Stmt.introducedAll r.setup

/-- A conversion of `source` keeps to names of its own. -/
structure Recipe.LocalTo (source : Expr) (r : Recipe) : Prop where
  decls : ∀ s ∈ r.decls, ∃ type target, s = .decl type target
  introduced : ∀ x ∈ r.introduced, Extends source.stem x
  changes : ∀ x ∈ changesAll r.setup, x ∈ r.introduced
  result : ∀ x ∈ names r.result, x ∈ names source ∨ Extends source.stem x

end Code

/-! ## Suffixes of temporaries -/

theorem cpp_isSuffix : IsSuffix "_cpp" := ⟨"cpp", by decide, rfl⟩

theorem py_isSuffix : IsSuffix "_py" := ⟨"py", by decide, rfl⟩

theorem iter_isSuffix : IsSuffix "_iter" := ⟨"iter", by decide, rfl⟩

theorem item_isSuffix : IsSuffix "_item" := ⟨"item", by decide, rfl⟩

theorem key_isSuffix : IsSuffix "_key" := ⟨"key", by decide, rfl⟩

theorem val_isSuffix : IsSuffix "_val" := ⟨"val", by decide, rfl⟩

theorem first_isSuffix : IsSuffix "_first" := ⟨"first", by decide, rfl⟩

theorem second_isSuffix : IsSuffix "_second" := ⟨"second", by decide, rfl⟩

section
variable {stem s : String}

theorem stem_name_suffix (hp : IsStem stem) (hs : IsSuffix s) :
    (Expr.name (stem ++ s)).stem = stem ++ s :=
  hs.stem_eq hp

/-- The stem of the first part of what a position refers to. -/
theorem stem_first (hp : IsStem stem) :
    (Expr.attr (.deref (.name (stem ++ "_iter"))) "first").stem = stem ++ "_iter" ++ "_first" := by
  show (Expr.name (stem ++ "_iter")).stem ++ "_" ++ "first" = _
  rw [stem_name_suffix hp iter_isSuffix, String.append_assoc]
  rfl

/-- The stem of the second part of what a position refers to. -/
theorem stem_second (hp : IsStem stem) :
    (Expr.attr (.deref (.name (stem ++ "_iter"))) "second").stem =
      stem ++ "_iter" ++ "_second" := by
  show (Expr.name (stem ++ "_iter")).stem ++ "_" ++ "second" = _
  rw [stem_name_suffix hp iter_isSuffix, String.append_assoc]
  rfl

end

/-! ## Code that is local to its source -/

namespace Code.Recipe

variable {source : Expr}

theorem LocalTo.changes_extend {r : Recipe} (h : r.LocalTo source) {x : String}
    (hx : x ∈ changesAll r.setup) : Extends source.stem x :=
  h.introduced x (h.changes x hx)

theorem LocalTo.storeItems {item : Recipe} (storage insertion : String)
    (h : item.LocalTo (.name (source.stem ++ "_item"))) :
    (storeItems source.stem storage insertion source item).LocalTo source := by
  have hp := isStem_stem_expr source
  have hi := h.introduced
  rw [stem_name_suffix hp item_isSuffix] at hi
  have hc := h.changes
  simp only [Recipe.introduced, List.mem_append] at hi hc
  refine ⟨?_, ?_, ?_, ?_⟩
  · intro s hs
    rcases List.mem_cons.mp hs with rfl | hs
    · exact ⟨_, _, rfl⟩
    · exact h.decls s hs
  · intro x hx
    simp only [Recipe.introduced, Recipe.storeItems, Stmt.introducedAll, Stmt.introduced, root,
      Stmt.introducedAll_append, List.append_nil, List.mem_append, List.mem_singleton] at hx
    rcases hx with (rfl | hx) | rfl | rfl | hx
    · exact cpp_isSuffix.extends
    · exact item_isSuffix.extends.trans (hi x (Or.inl hx))
    · exact cpp_isSuffix.extends
    · exact item_isSuffix.extends
    · exact item_isSuffix.extends.trans (hi x (Or.inr hx))
  · intro x hx
    simp only [Recipe.introduced, Recipe.storeItems, Stmt.introducedAll, Stmt.introduced, root,
      Expr.method, changesAll, Execution.changes, changesAll_append,
      Stmt.introducedAll_append, List.append_nil, List.mem_append, List.mem_singleton] at hx ⊢
    rcases hx with rfl | rfl | hx | rfl
    · simp
    · simp
    · rcases hc x hx with hx | hx <;> simp [hx]
    · simp
  · intro x hx
    right
    simp only [Recipe.storeItems, names, List.mem_singleton] at hx
    rw [hx]
    exact cpp_isSuffix.extends

theorem LocalTo.storeEntries {key value : Recipe} (storage : String)
    (hk : key.LocalTo (.name (source.stem ++ "_key")))
    (hv : value.LocalTo (.name (source.stem ++ "_val"))) :
    (storeEntries source.stem storage source key value).LocalTo source := by
  have hp := isStem_stem_expr source
  have hki := hk.introduced
  have hvi := hv.introduced
  rw [stem_name_suffix hp key_isSuffix] at hki
  rw [stem_name_suffix hp val_isSuffix] at hvi
  have hkc := hk.changes
  have hvc := hv.changes
  simp only [Recipe.introduced, List.mem_append] at hki hvi hkc hvc
  refine ⟨?_, ?_, ?_, ?_⟩
  · intro s hs
    rcases List.mem_cons.mp hs with rfl | hs
    · exact ⟨_, _, rfl⟩
    · exact (List.mem_append.mp hs).elim (hk.decls s) (hv.decls s)
  · intro x hx
    simp only [Recipe.introduced, Recipe.storeEntries, Stmt.introducedAll, Stmt.introduced, root,
      Stmt.introducedAll_append, List.append_nil, List.mem_append, List.mem_cons,
      List.not_mem_nil, or_false] at hx
    rcases hx with (rfl | hx | hx) | rfl | (rfl | rfl) | hx | hx
    · exact cpp_isSuffix.extends
    · exact key_isSuffix.extends.trans (hki x (Or.inl hx))
    · exact val_isSuffix.extends.trans (hvi x (Or.inl hx))
    · exact cpp_isSuffix.extends
    · exact key_isSuffix.extends
    · exact val_isSuffix.extends
    · exact key_isSuffix.extends.trans (hki x (Or.inr hx))
    · exact val_isSuffix.extends.trans (hvi x (Or.inr hx))
  · intro x hx
    simp only [Recipe.introduced, Recipe.storeEntries, Stmt.introducedAll, Stmt.introduced, root,
      changesAll, Execution.changes, changesAll_append, Stmt.introducedAll_append, List.append_nil,
      List.mem_append, List.mem_cons, List.not_mem_nil, or_false] at hx ⊢
    rcases hx with rfl | (rfl | rfl) | (hx | hx) | rfl
    · simp
    · simp
    · simp
    · rcases hkc x hx with hx | hx <;> simp [hx]
    · rcases hvc x hx with hx | hx <;> simp [hx]
    · simp
  · intro x hx
    right
    simp only [Recipe.storeEntries, names, List.mem_singleton] at hx
    rw [hx]
    exact cpp_isSuffix.extends

/-- A walk with a body whose names extend the position. -/
theorem LocalTo.walk {storage : String} {empty : Expr} {decls body : List Stmt}
    (hd : ∀ s ∈ decls, ∃ type target, s = .decl type target)
    (hi : ∀ x ∈ Stmt.introducedAll decls ++ Stmt.introducedAll body,
      Extends (source.stem ++ "_iter") x)
    (hc : ∀ x ∈ changesAll body,
      x = source.stem ++ "_py" ∨ x ∈ Stmt.introducedAll decls ++ Stmt.introducedAll body) :
    (walk source.stem storage source empty decls body).LocalTo source := by
  simp only [List.mem_append] at hi hc
  refine ⟨?_, ?_, ?_, ?_⟩
  · intro s hs
    rcases List.mem_cons.mp hs with rfl | hs
    · exact ⟨_, _, rfl⟩
    · exact hd s hs
  · intro x hx
    simp only [Recipe.introduced, Recipe.walk, Stmt.introducedAll, Stmt.introduced, root,
      Stmt.introducedAll_append, List.append_nil, List.mem_append, List.mem_singleton] at hx
    rcases hx with (rfl | hx) | rfl | rfl | hx
    · exact iter_isSuffix.extends
    · exact iter_isSuffix.extends.trans (hi x (Or.inl hx))
    · exact py_isSuffix.extends
    · exact iter_isSuffix.extends
    · exact iter_isSuffix.extends.trans (hi x (Or.inr hx))
  · intro x hx
    simp only [Recipe.introduced, Recipe.walk, Stmt.introducedAll, Stmt.introduced, root,
      changesAll, Execution.changes, changesAll_append, Stmt.introducedAll_append,
      List.append_nil, List.mem_append, List.mem_singleton] at hx ⊢
    rcases hx with rfl | rfl | hx | rfl
    · simp
    · simp
    · rcases hc x hx with hx | hx | hx <;> simp [hx]
    · simp
  · intro x hx
    right
    simp only [Recipe.walk, names, List.mem_singleton] at hx
    rw [hx]
    exact py_isSuffix.extends

theorem LocalTo.loadItems {item : Recipe} (storage addition : String) (empty : Expr)
    (h : item.LocalTo (.deref (.name (source.stem ++ "_iter")))) :
    (loadItems source.stem storage addition source empty item).LocalTo source := by
  have hi := h.introduced
  have he : (Expr.deref (.name (source.stem ++ "_iter"))).stem = source.stem ++ "_iter" :=
    stem_name_suffix (isStem_stem_expr source) iter_isSuffix
  rw [he] at hi
  have hc := h.changes
  simp only [Recipe.introduced, List.mem_append] at hi hc
  refine LocalTo.walk h.decls ?_ ?_
  · intro x hx
    simp only [Stmt.introducedAll, Stmt.introduced, Stmt.introducedAll_append, List.append_nil,
      List.mem_append] at hx
    exact hi x hx
  · intro x hx
    simp only [changesAll, Execution.changes, root, Expr.method, Stmt.introducedAll,
      Stmt.introduced, changesAll_append, Stmt.introducedAll_append, List.append_nil,
      List.mem_append, List.mem_singleton] at hx ⊢
    rcases hx with hx | rfl
    · exact Or.inr (hc x hx)
    · exact Or.inl rfl

theorem LocalTo.loadEntries {key value : Recipe} (storage : String)
    (hk : key.LocalTo (.attr (.deref (.name (source.stem ++ "_iter"))) "first"))
    (hv : value.LocalTo (.attr (.deref (.name (source.stem ++ "_iter"))) "second")) :
    (loadEntries source.stem storage source key value).LocalTo source := by
  have hki := hk.introduced
  have hvi := hv.introduced
  rw [stem_first (isStem_stem_expr source)] at hki
  rw [stem_second (isStem_stem_expr source)] at hvi
  have hkc := hk.changes
  have hvc := hv.changes
  simp only [Recipe.introduced, List.mem_append] at hki hvi hkc hvc
  refine LocalTo.walk ?_ ?_ ?_
  · intro s hs
    exact (List.mem_append.mp hs).elim (hk.decls s) (hv.decls s)
  · intro x hx
    simp only [Stmt.introducedAll, Stmt.introduced, Stmt.introducedAll_append, List.append_nil,
      List.mem_append] at hx
    rcases hx with (hx | hx) | (hx | hx)
    · exact first_isSuffix.extends.trans (hki x (Or.inl hx))
    · exact second_isSuffix.extends.trans (hvi x (Or.inl hx))
    · exact first_isSuffix.extends.trans (hki x (Or.inr hx))
    · exact second_isSuffix.extends.trans (hvi x (Or.inr hx))
  · intro x hx
    simp only [changesAll, Execution.changes, root, Stmt.introducedAll,
      Stmt.introduced, changesAll_append, Stmt.introducedAll_append, List.append_nil,
      List.mem_append, List.mem_singleton] at hx ⊢
    rcases hx with (hx | hx) | rfl
    · rcases hkc x hx with hx | hx <;> simp [hx]
    · rcases hvc x hx with hx | hx <;> simp [hx]
    · exact Or.inl rfl

end Code.Recipe

/-! ## Code of the built-in catalog -/

namespace Catalog

/-- A text passes through a name for its bytes. -/
theorem toStorage_str (source : Expr) : builtin.toStorage source (.primitive .str) = .ok
    { decls := [.decl "bytes" (.name (source.stem ++ "_" ++ "bytes"))]
      setup := [.assign (.name (source.stem ++ "_" ++ "bytes")) (source.method "encode" [])]
      result := .construct "std_string"
        [.cast "char *" (.name (source.stem ++ "_" ++ "bytes"))] } := rfl

/-- A complex number passes through a name for its fields. -/
theorem toStorage_complex (source : Expr) :
    builtin.toStorage source (.primitive .complex128) = .ok
    { decls := [.decl Recipe.complexType (.name (source.stem ++ "_" ++ "proxy"))]
      setup :=
        [.assign (.attr (.name (source.stem ++ "_" ++ "proxy")) "re") (.attr source "real"),
         .assign (.attr (.name (source.stem ++ "_" ++ "proxy")) "im") (.attr source "imag")]
      result := .name (source.stem ++ "_" ++ "proxy") } := rfl

/-- Every other primitive is cast. -/
theorem toStorage_cast (source : Expr) {p : Primitive} (hs : p ≠ .str) (hc : p ≠ .complex128) :
    ∃ type, storedAs? type = some p ∧
      builtin.toStorage source (.primitive p) = .ok (.ofResult (.cast type source)) := by
  cases p with
  | str => exact absurd rfl hs
  | complex128 => exact absurd rfl hc
  | _ => exact ⟨_, rfl, rfl⟩

/-- A storage text is read as bytes. -/
theorem toHost_str (source : Expr) : builtin.toHost source (.primitive .str) = .ok (.ofResult
    ((Expr.callName "bytes" [.cast "char *" (source.method "c_str" [])]).method "decode" [])) :=
  rfl

/-- A complex number is made from its fields. -/
theorem toHost_complex (source : Expr) :
    builtin.toHost source (.primitive .complex128) = .ok (.ofResult (.callName "complex"
      [.callName "float" [.attr source "re"], .callName "float" [.attr source "im"]])) :=
  rfl

/-- For every other primitive a host type is called. -/
theorem toHost_call (source : Expr) {p : Primitive} (hs : p ≠ .str) (hc : p ≠ .complex128) :
    builtin.toHost source (.primitive p) =
      .ok (.ofResult (.callName (if p.isInteger then "int" else "float") [source])) := by
  cases p with
  | str => exact absurd rfl hs
  | complex128 => exact absurd rfl hc
  | _ => rfl

end Catalog

namespace Code.Recipe

theorem LocalTo.ofResult {source e : Expr} (h : ∀ x ∈ names e, x ∈ names source) :
    (Recipe.ofResult e).LocalTo source := by
  refine ⟨?_, ?_, ?_, fun x hx => Or.inl (h x hx)⟩
  · intro s hs
    cases hs
  · intro x hx
    cases hx
  · intro x hx
    cases hx

end Code.Recipe

namespace Catalog

/-- Code for a primitive that goes into storage is local to its source. -/
theorem toStorage_primitive (source : Expr) (p : Primitive) :
    ∃ r, builtin.toStorage source (.primitive p) = .ok r ∧ r.LocalTo source := by
  by_cases hs : p = .str
  · subst hs
    refine ⟨_, toStorage_str source, ?_, ?_, ?_, ?_⟩
    · intro s h
      rw [List.mem_singleton.mp h]
      exact ⟨_, _, rfl⟩
    · intro x hx
      simp only [Recipe.introduced, Stmt.introducedAll, Stmt.introduced, root, List.append_nil,
        List.mem_append, List.mem_singleton, or_self] at hx
      rw [hx]
      exact extends_of_word _ (by decide)
    · intro x hx
      simpa [Recipe.introduced, Stmt.introducedAll, Stmt.introduced, root, changesAll,
        Execution.changes] using hx
    · intro x hx
      simp only [names, namesAll, List.append_nil, List.mem_singleton] at hx
      rw [hx]
      exact Or.inr (extends_of_word _ (by decide))
  · by_cases hc : p = .complex128
    · subst hc
      refine ⟨_, toStorage_complex source, ?_, ?_, ?_, ?_⟩
      · intro s h
        rw [List.mem_singleton.mp h]
        exact ⟨_, _, rfl⟩
      · intro x hx
        simp only [Recipe.introduced, Stmt.introducedAll, Stmt.introduced, root, List.append_nil,
          List.mem_singleton] at hx
        rw [hx]
        exact extends_of_word _ (by decide)
      · intro x hx
        simpa [Recipe.introduced, Stmt.introducedAll, Stmt.introduced, root, changesAll,
          Execution.changes] using hx
      · intro x hx
        simp only [names, List.mem_singleton] at hx
        rw [hx]
        exact Or.inr (extends_of_word _ (by decide))
    · obtain ⟨type, -, h⟩ := toStorage_cast source hs hc
      exact ⟨_, h, .ofResult fun x hx => hx⟩

/-- Code for a primitive that comes out of storage is local to its source. -/
theorem toHost_primitive (source : Expr) (p : Primitive) :
    ∃ r, builtin.toHost source (.primitive p) = .ok r ∧ r.LocalTo source := by
  by_cases hs : p = .str
  · subst hs
    refine ⟨_, toHost_str source, .ofResult fun x hx => ?_⟩
    simpa [Expr.method, Expr.callName, names, namesAll] using hx
  · by_cases hc : p = .complex128
    · subst hc
      refine ⟨_, toHost_complex source, .ofResult fun x hx => ?_⟩
      simpa [Expr.callName, names, namesAll] using hx
    · refine ⟨_, toHost_call source hs hc, .ofResult fun x hx => ?_⟩
      simpa [Expr.callName, names, namesAll] using hx

/-- Every type has code that makes a storage value, local to its source. -/
theorem toStorage_builtin : ∀ (t : ElementType) (source : Expr),
    ∃ r, builtin.toStorage source t = .ok r ∧ r.LocalTo source
  | .primitive p, source => toStorage_primitive source p
  | .vector e, source => by
    obtain ⟨storage, hs⟩ := spell_builtin .storage (.vector e)
    obtain ⟨item, hi, hl⟩ := toStorage_builtin e (.name (source.stem ++ "_item"))
    refine ⟨_, ?_, Recipe.LocalTo.storeItems storage "push_back" hl⟩
    simp only [toStorage, storageType, hs, hi, bind, Except.bind, pure, Except.pure]
  | .set e, source => by
    obtain ⟨storage, hs⟩ := spell_builtin .storage (.set e)
    obtain ⟨item, hi, hl⟩ := toStorage_builtin e (.name (source.stem ++ "_item"))
    refine ⟨_, ?_, Recipe.LocalTo.storeItems storage "insert" hl⟩
    simp only [toStorage, storageType, hs, hi, bind, Except.bind, pure, Except.pure]
  | .map k v, source => by
    obtain ⟨storage, hs⟩ := spell_builtin .storage (.map k v)
    obtain ⟨key, hk, hkl⟩ := toStorage_builtin k (.name (source.stem ++ "_key"))
    obtain ⟨value, hv, hvl⟩ := toStorage_builtin v (.name (source.stem ++ "_val"))
    refine ⟨_, ?_, Recipe.LocalTo.storeEntries storage hkl hvl⟩
    simp only [toStorage, storageType, hs, hk, hv, bind, Except.bind, pure, Except.pure]

/-- Every type has code that makes a host value, local to its source. -/
theorem toHost_builtin : ∀ (t : ElementType) (source : Expr),
    ∃ r, builtin.toHost source t = .ok r ∧ r.LocalTo source
  | .primitive p, source => toHost_primitive source p
  | .vector e, source => by
    obtain ⟨storage, hs⟩ := spell_builtin .storage (.vector e)
    obtain ⟨item, hi, hl⟩ := toHost_builtin e (.deref (.name (source.stem ++ "_iter")))
    refine ⟨_, ?_, Recipe.LocalTo.loadItems storage "append" (.list []) hl⟩
    simp only [toHost, storageType, hs, hi, bind, Except.bind, pure, Except.pure]
  | .set e, source => by
    obtain ⟨storage, hs⟩ := spell_builtin .storage (.set e)
    obtain ⟨item, hi, hl⟩ := toHost_builtin e (.deref (.name (source.stem ++ "_iter")))
    refine ⟨_, ?_, Recipe.LocalTo.loadItems storage "add" (.callName "set" []) hl⟩
    simp only [toHost, storageType, hs, hi, bind, Except.bind, pure, Except.pure]
  | .map k v, source => by
    obtain ⟨storage, hs⟩ := spell_builtin .storage (.map k v)
    let position := Expr.deref (.name (source.stem ++ "_iter"))
    obtain ⟨key, hk, hkl⟩ := toHost_builtin k (.attr position "first")
    obtain ⟨value, hv, hvl⟩ := toHost_builtin v (.attr position "second")
    refine ⟨_, ?_, Recipe.LocalTo.loadEntries storage hkl hvl⟩
    simp only [toHost, storageType, hs, hk, hv, position, bind, Except.bind, pure, Except.pure]

theorem toStorage_localTo {t : ElementType} {source : Expr} {r : Recipe}
    (h : builtin.toStorage source t = .ok r) : r.LocalTo source := by
  obtain ⟨r', h', hl⟩ := toStorage_builtin t source
  rw [h] at h'
  cases h'
  exact hl

theorem toHost_localTo {t : ElementType} {source : Expr} {r : Recipe}
    (h : builtin.toHost source t = .ok r) : r.LocalTo source := by
  obtain ⟨r', h', hl⟩ := toHost_builtin t source
  rw [h] at h'
  cases h'
  exact hl

end Catalog

/-! ## Sources -/

namespace Code

/-- The value of the expression does not depend on names that extend its stem. -/
def Expr.IsStable (e : Expr) : Prop := ∀ x ∈ names e, ¬ Extends e.stem x

theorem Expr.isStable_name (n : String) : (Expr.name n).IsStable := by
  intro x hx
  rw [List.mem_singleton.mp hx]
  exact not_extends_stem n

theorem Expr.isStable_deref (n : String) : (Expr.deref (.name n)).IsStable :=
  isStable_name n

section
variable {stem : String} (hp : IsStem stem)
include hp

theorem Expr.isStable_first : (Expr.attr (.deref (.name (stem ++ "_iter"))) "first").IsStable := by
  intro x hx
  rw [List.mem_singleton.mp hx, stem_first hp]
  exact first_isSuffix.not_extends_stem

theorem Expr.isStable_second :
    (Expr.attr (.deref (.name (stem ++ "_iter"))) "second").IsStable := by
  intro x hx
  rw [List.mem_singleton.mp hx, stem_second hp]
  exact second_isSuffix.not_extends_stem

end

section
variable {source : Expr} {r : Recipe} {env env' : Env}

/-- A stable source keeps its value when other names keep theirs. -/
theorem Expr.IsStable.eval_eq (hs : source.IsStable)
    (h : ∀ x, ¬ Extends source.stem x → env' x = env x) : eval env' source = eval env source :=
  eval_congr source fun x hx => h x (hs x hx)

/-- Code that is local to its source changes only names that extend its stem. -/
theorem Recipe.LocalTo.keeps (h : r.LocalTo source) (hr : Runs r.setup env env') {x : String}
    (hx : ¬ Extends source.stem x) : env' x = env x :=
  hr.agreeOff x fun hc => hx (h.changes_extend hc)

/-- The result of code that is local to its source keeps its value when the
names of the source and those that extend its stem keep theirs. -/
theorem Recipe.LocalTo.eval_result (h : r.LocalTo source)
    (hn : ∀ x ∈ names source, env' x = env x) (he : ∀ x, Extends source.stem x → env' x = env x) :
    eval env' r.result = eval env r.result :=
  eval_congr r.result fun x hx => (h.result x hx).elim (hn x) (he x)

end

end Code

end WrapGen
