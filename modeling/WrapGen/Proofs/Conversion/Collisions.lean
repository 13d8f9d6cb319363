import Mathlib.Logic.Relation
import Mathlib.Tactic.Tauto
import WrapGen.Proofs.Conversion.Introduced

/-!
# When conversions of two sources collide

The names of a conversion extend the stem of its source. A stem leaves out indices,
arguments, casts and references, so different sources may have the same stem; and what one
source is called may be what a level inside the conversion of another is called.

A conversion goes down level by level, and every level adds a suffix to the stem of the
level above (`Suffixes.Reaches`). The names of a level are its stem with an ending. No
suffix ends in another one, so a name is read from its end in one way.

* `collide_iff`: the conversions of two sources have a name in common, for some types,
  exactly if the stem of one is that of a level below the other.
* `not_apart_of_ne`: two elements of one container have conversions that collide.
-/
namespace WrapGen

open Code Text

/-! ## Names by their suffixes -/

/-- No text of a list ends in another one. -/
def SuffixFree (ss : List String) : Prop := ∀ s ∈ ss, ∀ t ∈ ss, s.toList <:+ t.toList → s = t

instance (ss : List String) : Decidable (SuffixFree ss) :=
  inferInstanceAs (Decidable (∀ s ∈ ss, ∀ t ∈ ss, s.toList <:+ t.toList → s = t))

/-- What stands before one of the texts is read back. -/
theorem SuffixFree.append_inj {ss : List String} (h : SuffixFree ss) {p q s t : String}
    (hs : s ∈ ss) (ht : t ∈ ss) (heq : p ++ s = q ++ t) : p = q ∧ s = t := by
  have hlist : p.toList ++ s.toList = q.toList ++ t.toList := by
    rw [← String.toList_append, heq, String.toList_append]
  have hst : s = t := by
    rcases List.suffix_or_suffix_of_suffix ⟨_, hlist⟩ ⟨q.toList, rfl⟩ with hsuffix | hsuffix
    · exact h s hs t ht hsuffix
    · exact (h t ht s hs hsuffix).symm
  subst hst
  exact ⟨String.toList_inj.mp (List.append_cancel_right hlist), rfl⟩

/-- The suffixes in the names of one direction: what a level adds to the stem of the level
above, and what ends the names of a level. -/
structure Suffixes where
  steps : List String
  ends : List String
  steps_free : SuffixFree steps
  ends_free : SuffixFree ends

/-- The suffixes on the way into storage. -/
def storeSuffixes : Suffixes where
  steps := ["_item", "_key", "_val"]
  ends := ["_cpp", "_item", "_key", "_val", "_bytes", "_proxy"]
  steps_free := by decide
  ends_free := by decide

/-- The suffixes on the way out of storage. -/
def loadSuffixes : Suffixes where
  steps := ["_iter", "_iter_first", "_iter_second"]
  ends := ["_iter", "_py"]
  steps_free := by decide
  ends_free := by decide

namespace Suffixes

variable {σ : Suffixes} {a b p q x : String} {xs ys : List String}

/-- A conversion with the stem `p` has a level, at some depth, with the stem `q`. -/
def Reaches (σ : Suffixes) : String → String → Prop :=
  Relation.ReflTransGen fun p q => ∃ s ∈ σ.steps, q = p ++ s

/-- A name of a level below the stem `p`. -/
def Names (σ : Suffixes) (p x : String) : Prop :=
  ∃ q, σ.Reaches p q ∧ ∃ e ∈ σ.ends, x = q ++ e

theorem names_append {e : String} (he : e ∈ σ.ends) : σ.Names p (p ++ e) :=
  ⟨p, .refl, e, he, rfl⟩

theorem Names.of_step {s : String} (hs : s ∈ σ.steps) (h : σ.Names (p ++ s) x) : σ.Names p x := by
  obtain ⟨q, hq, hend⟩ := h
  exact ⟨q, hq.head ⟨s, hs, rfl⟩, hend⟩

/-- Two stems with a level in common are levels one below the other: the way to the level
is read from its end, until one of the stems is left. -/
theorem Reaches.or_reaches (ha : σ.Reaches a p) (hb : σ.Reaches b p) :
    σ.Reaches a b ∨ σ.Reaches b a := by
  induction ha with
  | refl => exact Or.inr hb
  | tail hq hstep ih =>
    obtain ⟨s, hs, rfl⟩ := hstep
    rcases hb.cases_tail with rfl | ⟨q', hq', t, ht, heq⟩
    · exact Or.inl (hq.tail ⟨s, hs, rfl⟩)
    · obtain ⟨rfl, -⟩ := σ.steps_free.append_inj hs ht heq
      exact ih hq'

theorem Names.reaches (ha : σ.Names a x) (hb : σ.Names b x) : σ.Reaches a b ∨ σ.Reaches b a := by
  obtain ⟨p, hp, e, he, rfl⟩ := ha
  obtain ⟨q, hq, f, hf, heq⟩ := hb
  obtain ⟨rfl, -⟩ := σ.ends_free.append_inj he hf heq
  exact hp.or_reaches hq

end Suffixes

/-! ## The names of one level -/

namespace Code

namespace Stmt

/-- The names that a statement declares, loops over or assigns to. -/
def named (s : Stmt) : List String := s.declaredName ++ s.loopTargets ++ s.assignedName

theorem mem_collect_named {x : String} {ss : List Stmt} : x ∈ collect named ss ↔
    x ∈ collect declaredName ss ∨ x ∈ collect loopTargets ss ∨ x ∈ collect assignedName ss := by
  simp only [collect, named, List.mem_flatMap, List.mem_append, or_assoc, and_or_left, exists_or]

section
variable {x : String} {e : Expr} {targets : List String} {body ss : List Stmt}

theorem named_decl {type : String} :
    collect named (.decl type (.name x) :: ss) = x :: collect named ss := rfl

theorem named_assign : collect named (.assign (.name x) e :: ss) = x :: collect named ss := rfl

theorem named_setItem {a b : Expr} :
    collect named (.assign (.index a b) e :: ss) = collect named ss := rfl

theorem named_expr : collect named (.expr e :: ss) = collect named ss := rfl

theorem named_forEach : collect named (.forEach targets e body :: ss) =
    targets ++ (collect named body ++ collect named ss) := by
  rw [collect_forEach]
  exact congrArg (· ++ _) (List.append_nil targets)

theorem named_loop :
    collect named (.loop e body :: ss) = collect named body ++ collect named ss :=
  collect_loop named ss body e

end

end Stmt

namespace Recipe

variable {r item key value : Recipe} {p storage x : String} {source : Expr}

theorem mem_introductions : x ∈ r.introductions ↔
    x ∈ Stmt.collect Stmt.named r.decls ∨ x ∈ Stmt.collect Stmt.named r.setup := by
  rw [← List.mem_append, ← Stmt.collect_append, ← statements, Stmt.mem_collect_named, ← declared]
  by_cases hx : x ∈ r.declared
  · exact iff_of_true (List.mem_append_left _ (List.mem_append_left _ hx)) (Or.inl hx)
  · simp only [introductions, List.mem_append, List.mem_filter, hx, not_false_eq_true,
      decide_true, and_true, false_or]

theorem mem_introductions_storeItems {insertion : String} :
    x ∈ (storeItems p storage insertion source item).introductions ↔
      x = p ++ "_cpp" ∨ x = p ++ "_item" ∨ x ∈ item.introductions := by
  rw [mem_introductions, mem_introductions, storeItems, Stmt.named_decl, Stmt.named_assign,
    Stmt.named_forEach, Stmt.collect_append, Stmt.named_expr, Stmt.collect_nil]
  simp only [List.mem_cons, List.mem_append, List.not_mem_nil, or_false]
  tauto

theorem mem_introductions_storeEntries :
    x ∈ (storeEntries p storage source key value).introductions ↔
      x = p ++ "_cpp" ∨ x = p ++ "_key" ∨ x = p ++ "_val" ∨ x ∈ key.introductions ∨
        x ∈ value.introductions := by
  rw [mem_introductions, mem_introductions, mem_introductions, storeEntries, Stmt.named_decl,
    Stmt.collect_append, Stmt.named_assign, Stmt.named_forEach, Stmt.collect_append,
    Stmt.collect_append, Stmt.named_setItem, Stmt.collect_nil]
  simp only [List.mem_cons, List.mem_append, List.not_mem_nil, or_false]
  tauto

theorem mem_introductions_walk {empty : Expr} {decls body : List Stmt} :
    x ∈ (walk p storage source empty decls body).introductions ↔
      x = p ++ "_iter" ∨ x = p ++ "_py" ∨ x ∈ Stmt.collect Stmt.named decls ∨
        x ∈ Stmt.collect Stmt.named body := by
  rw [mem_introductions, walk, Stmt.named_decl, Stmt.named_assign, Stmt.named_assign,
    Stmt.named_loop, Stmt.collect_append, Stmt.named_expr, Stmt.collect_nil]
  simp only [List.mem_cons, List.mem_append, List.not_mem_nil, or_false]
  tauto

theorem mem_introductions_loadItems {addition : String} {empty : Expr} :
    x ∈ (loadItems p storage addition source empty item).introductions ↔
      x = p ++ "_iter" ∨ x = p ++ "_py" ∨ x ∈ item.introductions := by
  rw [loadItems, mem_introductions_walk, mem_introductions, Stmt.collect_append, Stmt.named_expr,
    Stmt.collect_nil, List.append_nil]

theorem mem_introductions_loadEntries :
    x ∈ (loadEntries p storage source key value).introductions ↔
      x = p ++ "_iter" ∨ x = p ++ "_py" ∨ x ∈ key.introductions ∨ x ∈ value.introductions := by
  rw [loadEntries, mem_introductions_walk, mem_introductions, mem_introductions,
    Stmt.collect_append, Stmt.collect_append, Stmt.collect_append, Stmt.named_setItem,
    Stmt.collect_nil, List.append_nil]
  simp only [List.mem_append]
  tauto

end Recipe

end Code

/-! ## All names of a conversion -/

namespace Catalog

variable {source : Expr} {t k v : ElementType} {r item key value : Recipe} {p q : String}

theorem names_of_toStorage_primitive {p : Primitive}
    (h : builtin.toStorage source (.primitive p) = .ok r) :
    ∀ x ∈ r.introductions, storeSuffixes.Names source.stem x := by
  by_cases hs : p = .str
  · subst hs
    cases h.symm.trans (toStorage_str source)
    intro x hx
    have heq : x = source.stem ++ "_" ++ "bytes" := by
      rw [Recipe.mem_introductions] at hx
      exact hx.elim List.mem_singleton.mp List.mem_singleton.mp
    rw [heq, String.append_assoc]
    exact Suffixes.names_append (by decide)
  · by_cases hc : p = .complex128
    · subst hc
      cases h.symm.trans (toStorage_complex source)
      intro x hx
      have heq : x = source.stem ++ "_" ++ "proxy" := by
        rw [Recipe.mem_introductions] at hx
        exact hx.elim List.mem_singleton.mp fun h => absurd h List.not_mem_nil
      rw [heq, String.append_assoc]
      exact Suffixes.names_append (by decide)
    · obtain ⟨type, -, h'⟩ := toStorage_cast source hs hc
      cases h.symm.trans h'
      exact List.forall_mem_nil _

theorem names_of_toHost_primitive {p : Primitive}
    (h : builtin.toHost source (.primitive p) = .ok r) : r.introductions = [] := by
  by_cases hs : p = .str
  · subst hs
    cases h.symm.trans (toHost_str source)
    rfl
  · by_cases hc : p = .complex128
    · subst hc
      cases h.symm.trans (toHost_complex source)
      rfl
    · cases h.symm.trans (toHost_call source hs hc)
      rfl

/-- What a conversion into storage introduces are names of its levels. -/
theorem names_of_toStorage (h : builtin.toStorage source t = .ok r) :
    ∀ x ∈ r.introductions, storeSuffixes.Names source.stem x := by
  refine toStorage_induction
    (P := fun source r => ∀ x ∈ r.introductions, storeSuffixes.Names source.stem x)
    names_of_toStorage_primitive ?_ ?_ h
  · intro source t storage item _ _ hitem insertion _ x hx
    rw [stem_name_suffix (isStem_stem_expr source) item_isSuffix] at hitem
    rcases Recipe.mem_introductions_storeItems.mp hx with rfl | rfl | hx
    · exact Suffixes.names_append (by decide)
    · exact Suffixes.names_append (by decide)
    · exact (hitem x hx).of_step (by decide)
  · intro source t storage key value _ _ hkey hvalue x hx
    rw [stem_name_suffix (isStem_stem_expr source) key_isSuffix] at hkey
    rw [stem_name_suffix (isStem_stem_expr source) val_isSuffix] at hvalue
    rcases Recipe.mem_introductions_storeEntries.mp hx with rfl | rfl | rfl | hx | hx
    · exact Suffixes.names_append (by decide)
    · exact Suffixes.names_append (by decide)
    · exact Suffixes.names_append (by decide)
    · exact (hkey x hx).of_step (by decide)
    · exact (hvalue x hx).of_step (by decide)

theorem stem_key_itemAt (source : Expr) :
    (Expr.attr (itemAt source) "first").stem = source.stem ++ "_iter_first" := by
  rw [itemAt, stem_first (isStem_stem_expr source), String.append_assoc]
  rfl

theorem stem_value_itemAt (source : Expr) :
    (Expr.attr (itemAt source) "second").stem = source.stem ++ "_iter_second" := by
  rw [itemAt, stem_second (isStem_stem_expr source), String.append_assoc]
  rfl

/-- What a conversion out of storage introduces are names of its levels. -/
theorem names_of_toHost (h : builtin.toHost source t = .ok r) :
    ∀ x ∈ r.introductions, loadSuffixes.Names source.stem x := by
  refine toHost_induction
    (P := fun source r => ∀ x ∈ r.introductions, loadSuffixes.Names source.stem x)
    (fun h => names_of_toHost_primitive h ▸ List.forall_mem_nil _) ?_ ?_ h
  · intro source t storage item _ hitem filler _ x hx
    rw [stem_itemAt] at hitem
    rcases Recipe.mem_introductions_loadItems.mp hx with rfl | rfl | hx
    · exact Suffixes.names_append (by decide)
    · exact Suffixes.names_append (by decide)
    · exact (hitem x hx).of_step (by decide)
  · intro source t storage key value _ hkey hvalue x hx
    rw [stem_key_itemAt] at hkey
    rw [stem_value_itemAt] at hvalue
    rcases Recipe.mem_introductions_loadEntries.mp hx with rfl | rfl | hx | hx
    · exact Suffixes.names_append (by decide)
    · exact Suffixes.names_append (by decide)
    · exact (hkey x hx).of_step (by decide)
    · exact (hvalue x hx).of_step (by decide)

/-! ## A name of every level -/

theorem toStorage_vector (h : builtin.toStorage (.name (source.stem ++ "_item")) t = .ok item) :
    ∃ storage, builtin.toStorage source (.vector t) =
      .ok (.storeItems source.stem storage "push_back" source item) := by
  obtain ⟨storage, hs⟩ := spell_builtin .storage (.vector t)
  exact ⟨storage, by
    simp only [toStorage, storageType, hs, h, bind, Except.bind, pure, Except.pure]⟩

theorem toStorage_map (hk : builtin.toStorage (.name (source.stem ++ "_key")) k = .ok key)
    (hv : builtin.toStorage (.name (source.stem ++ "_val")) v = .ok value) :
    ∃ storage, builtin.toStorage source (.map k v) =
      .ok (.storeEntries source.stem storage source key value) := by
  obtain ⟨storage, hs⟩ := spell_builtin .storage (.map k v)
  exact ⟨storage, by
    simp only [toStorage, storageType, hs, hk, hv, bind, Except.bind, pure, Except.pure]⟩

theorem toHost_vector (h : builtin.toHost (itemAt source) t = .ok item) :
    ∃ storage, builtin.toHost source (.vector t) =
      .ok (.loadItems source.stem storage "append" source (.list []) item) := by
  obtain ⟨storage, hs⟩ := spell_builtin .storage (.vector t)
  rw [itemAt] at h
  exact ⟨storage, by
    simp only [toHost, storageType, hs, h, bind, Except.bind, pure, Except.pure]⟩

theorem toHost_map (hk : builtin.toHost (.attr (itemAt source) "first") k = .ok key)
    (hv : builtin.toHost (.attr (itemAt source) "second") v = .ok value) :
    ∃ storage, builtin.toHost source (.map k v) =
      .ok (.loadEntries source.stem storage source key value) := by
  obtain ⟨storage, hs⟩ := spell_builtin .storage (.map k v)
  rw [itemAt] at hk hv
  exact ⟨storage, by
    simp only [toHost, storageType, hs, hk, hv, bind, Except.bind, pure, Except.pure]⟩

/-- For every level some type has it, and its container is named. The type is built from
the outside, a container for every step to the level. -/
theorem exists_toStorage_mem (h : storeSuffixes.Reaches p q) : ∀ source : Expr, source.stem = p →
    ∃ t r, builtin.toStorage source t = .ok r ∧ q ++ "_cpp" ∈ r.introductions := by
  have hint := toStorage_builtin (.primitive .int32)
  induction h using Relation.ReflTransGen.head_induction_on with
  | refl =>
    rintro source rfl
    obtain ⟨item, hitem, -⟩ := hint (.name (source.stem ++ "_item"))
    obtain ⟨storage, hr⟩ := toStorage_vector hitem
    exact ⟨_, _, hr, Recipe.mem_introductions_storeItems.mpr (Or.inl rfl)⟩
  | head hstep _ ih =>
    rintro source rfl
    obtain ⟨s, hs, rfl⟩ := hstep
    have hp := isStem_stem_expr source
    have hcases : s = "_item" ∨ s = "_key" ∨ s = "_val" := by simpa [storeSuffixes] using hs
    rcases hcases with rfl | rfl | rfl
    · obtain ⟨t, item, hitem, hm⟩ := ih _ (stem_name_suffix hp item_isSuffix)
      obtain ⟨storage, hr⟩ := toStorage_vector hitem
      exact ⟨_, _, hr, Recipe.mem_introductions_storeItems.mpr (by simp [hm])⟩
    · obtain ⟨k, key, hkey, hm⟩ := ih _ (stem_name_suffix hp key_isSuffix)
      obtain ⟨value, hvalue, -⟩ := hint (.name (source.stem ++ "_val"))
      obtain ⟨storage, hr⟩ := toStorage_map hkey hvalue
      exact ⟨_, _, hr, Recipe.mem_introductions_storeEntries.mpr (by simp [hm])⟩
    · obtain ⟨v, value, hvalue, hm⟩ := ih _ (stem_name_suffix hp val_isSuffix)
      obtain ⟨key, hkey, -⟩ := hint (.name (source.stem ++ "_key"))
      obtain ⟨storage, hr⟩ := toStorage_map hkey hvalue
      exact ⟨_, _, hr, Recipe.mem_introductions_storeEntries.mpr (by simp [hm])⟩

/-- For every level some type has it, and its position is named. -/
theorem exists_toHost_mem (h : loadSuffixes.Reaches p q) : ∀ source : Expr, source.stem = p →
    ∃ t r, builtin.toHost source t = .ok r ∧ q ++ "_iter" ∈ r.introductions := by
  have hint := toHost_builtin (.primitive .int32)
  induction h using Relation.ReflTransGen.head_induction_on with
  | refl =>
    rintro source rfl
    obtain ⟨item, hitem, -⟩ := hint (itemAt source)
    obtain ⟨storage, hr⟩ := toHost_vector hitem
    exact ⟨_, _, hr, Recipe.mem_introductions_loadItems.mpr (Or.inl rfl)⟩
  | head hstep _ ih =>
    rintro source rfl
    obtain ⟨s, hs, rfl⟩ := hstep
    have hp := isStem_stem_expr source
    have hcases : s = "_iter" ∨ s = "_iter_first" ∨ s = "_iter_second" := by
      simpa [loadSuffixes] using hs
    rcases hcases with rfl | rfl | rfl
    · obtain ⟨t, item, hitem, hm⟩ := ih _ (stem_itemAt source)
      obtain ⟨storage, hr⟩ := toHost_vector hitem
      exact ⟨_, _, hr, Recipe.mem_introductions_loadItems.mpr (by simp [hm])⟩
    · obtain ⟨k, key, hkey, hm⟩ := ih (.attr (itemAt source) "first") (stem_key_itemAt source)
      obtain ⟨value, hvalue, -⟩ := hint (.attr (itemAt source) "second")
      obtain ⟨storage, hr⟩ := toHost_map hkey hvalue
      exact ⟨_, _, hr, Recipe.mem_introductions_loadEntries.mpr (by simp [hm])⟩
    · obtain ⟨v, value, hvalue, hm⟩ := ih (.attr (itemAt source) "second") (stem_value_itemAt source)
      obtain ⟨key, hkey, -⟩ := hint (.attr (itemAt source) "first")
      obtain ⟨storage, hr⟩ := toHost_map hkey hvalue
      exact ⟨_, _, hr, Recipe.mem_introductions_loadEntries.mpr (by simp [hm])⟩

/-! ## Collisions -/

/-- For some types the conversions of two sources introduce a name in common. -/
def Collide (convert : Expr → ElementType → Except DescriptorError Recipe) (a b : Expr) : Prop :=
  ∃ t u r s, convert a t = .ok r ∧ convert b u = .ok s ∧
    ¬ r.introductions.Disjoint s.introductions

section
variable {convert : Expr → ElementType → Except DescriptorError Recipe} {σ : Suffixes}
  {a b : Expr}

theorem Collide.symm (h : Collide convert a b) : Collide convert b a := by
  obtain ⟨t, u, r, s, hr, hs, hcommon⟩ := h
  exact ⟨u, t, s, r, hs, hr, fun hd => hcommon fun _ hxr hxs => hd hxs hxr⟩

/-- Conversions whose names are those of their levels, and which have every level for some
type, collide exactly if one source has the other as a level. -/
theorem collide_iff_reaches {e : String}
    (hnames : ∀ {source t r}, convert source t = .ok r →
      ∀ x ∈ r.introductions, σ.Names source.stem x)
    (hlevels : ∀ {p q}, σ.Reaches p q → ∀ source : Expr, source.stem = p →
      ∃ t r, convert source t = .ok r ∧ q ++ e ∈ r.introductions) :
    Collide convert a b ↔ σ.Reaches a.stem b.stem ∨ σ.Reaches b.stem a.stem := by
  have hcollide : ∀ {a b : Expr}, σ.Reaches a.stem b.stem → Collide convert a b := by
    intro a b h
    obtain ⟨t, r, hr, hmr⟩ := hlevels h a rfl
    obtain ⟨u, s, hs, hms⟩ := hlevels .refl b rfl
    exact ⟨t, u, r, s, hr, hs, fun hd => hd hmr hms⟩
  constructor
  · rintro ⟨t, u, r, s, hr, hs, hcommon⟩
    simp only [List.Disjoint, not_forall] at hcommon
    obtain ⟨x, hxr, hxs, -⟩ := hcommon
    exact (hnames hr x hxr).reaches (hnames hs x hxs)
  · rintro (h | h)
    · exact hcollide h
    · exact (hcollide h).symm

end

/-- Conversions of two sources collide for some types exactly if the stem of one source is
that of a level in the conversion of the other, itself included. -/
theorem collide_iff (a b : Expr) :
    (Collide builtin.toStorage a b ↔
      storeSuffixes.Reaches a.stem b.stem ∨ storeSuffixes.Reaches b.stem a.stem) ∧
    (Collide builtin.toHost a b ↔
      loadSuffixes.Reaches a.stem b.stem ∨ loadSuffixes.Reaches b.stem a.stem) :=
  ⟨collide_iff_reaches names_of_toStorage exists_toStorage_mem,
    collide_iff_reaches names_of_toHost exists_toHost_mem⟩

/-- Two elements of one container are different sources with the same stem: their
conversions to a text both go through `pair_at_bytes`. -/
theorem not_apart_of_ne : ¬ ∀ a b : Expr, a ≠ b → ∀ t u r s, builtin.toStorage a t = .ok r →
    builtin.toStorage b u = .ok s → r.introductions.Disjoint s.introductions := by
  intro h
  let first : Expr := .index (.name "pair") (.int 0)
  let second : Expr := .index (.name "pair") (.int 1)
  have hne : first ≠ second := by simp [first, second, Expr.int]
  have hdisjoint := h first second hne _ _ _ _ (toStorage_str first) (toStorage_str second)
  have hfirst : first.stem ++ "_" ++ "bytes" = "pair_at_bytes" := by decide +kernel
  have hsecond : second.stem ++ "_" ++ "bytes" = "pair_at_bytes" := by decide +kernel
  rw [hfirst, hsecond] at hdisjoint
  exact hdisjoint (Recipe.mem_introductions.mpr (Or.inl List.mem_cons_self))
    (Recipe.mem_introductions.mpr (Or.inl List.mem_cons_self))

end Catalog

end WrapGen
