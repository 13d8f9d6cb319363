import WrapGen.Batch.Request
import WrapGen.Proofs.Bundle.Arguments
import WrapGen.Proofs.Code.Straight
import WrapGen.Proofs.Conversion.Scoped

/-!
# Generated functions are well-scoped

A function mixes a few fixed names with the temporaries of conversions: a method
declares the variable for the storage form of its argument and after it what the
conversion declares, and then comes its block. The fixed names of every method are
apart from temporaries and loop names (`Apart`, decided), so that what `Recipe.Scoped`
says of the conversions carries over to the whole method. Functions without a
conversion are straight and are gone through.

* `Request.functions_wellScoped`: all functions of all requests are well-scoped.
-/
namespace WrapGen

open Code Text

namespace Bundle

open Scope

variable {a key value : Argument} {ds ks vs : List Declaration} {sc : Scope} {A B : Set String}
  {w : Vocabulary} {n : WrapperNames} {target : String} {fixed loops : List String}
  {accepted : Expr} {guards : List Stmt}

/-! ## What the pieces read -/

section
variable (a w) (s : String)

@[simp] theorem reads_selfField : (selfField s).reads = ["self"] := rfl

@[simp] theorem reads_container : w.container.reads = ["self"] := rfl

@[simp] theorem reads_initial : w.initial.reads = [w.initArg] := rfl

@[simp] theorem reads_argument : a.expr.reads = [a.name] := rfl

@[simp] theorem reads_countPositive (e : Expr) :
    (countPositive w.container e).reads = "self" :: e.reads := by
  simp [countPositive]

end

section
variable (s t : String) (e : Expr) (args : List Param) (decls stmts : List Stmt)

@[simp] theorem params_method : (method s args decls stmts).params = .plain "self" :: args := rfl

@[simp] theorem name_plain : (Param.plain s).name = s := rfl

@[simp] theorem name_typed : (Param.typed t s).name = s := rfl

@[simp] theorem name_withDefault : (Param.withDefault s e).name = s := rfl

end

theorem takes_raiseType {human role : String} (h : "TypeError" ∈ A) :
    sc.TakesAll A [raiseType human role] B :=
  (takes_raise (by simpa using h)).single

theorem takes_raiseKey {e : Expr} (h : "KeyError" ∈ A) (he : ∀ x ∈ e.reads, x ∈ A) :
    sc.TakesAll A [raiseKey e] B :=
  (takes_raise (by simpa using ⟨h, he⟩)).single

@[simp] theorem tidy_raiseType {human role : String} :
    (raiseType human role).Tidy fixed loops := trivial

@[simp] theorem tidy_raiseKey {e : Expr} : (raiseKey e).Tidy fixed loops := trivial

/-! ## Checks of kinds -/

section
variable {g : Generator} {subject : Expr} {t : ElementType} {role : String}

theorem reads_typeCheck {c : Catalog} (h : typeCheck c subject t = .ok accepted) :
    accepted.reads = subject.reads := by
  obtain ⟨kinds, -, rfl⟩ := typeCheck_eq_ok h
  rfl

/-- The check of strict insertion raises a type error or does nothing. -/
theorem takes_insertionGuard (h : insertionGuard g subject t role = .ok guards)
    (hs : ∀ x ∈ subject.reads, x ∈ A) (htype : "TypeError" ∈ A) : sc.TakesAll A guards ∅ := by
  obtain ⟨-, rfl⟩ | ⟨-, human, accepted, -, ha, rfl⟩ := insertionGuard_eq_ok h
  · exact takes_nil
  · have hraise : sc.TakesAll A [raiseType human role] ∅ := takes_raiseType htype
    exact (takes_when (by simpa [reads_typeCheck ha] using hs) hraise).single

theorem tidy_insertionGuard (h : insertionGuard g subject t role = .ok guards) :
    Stmt.TidyAll fixed loops guards := by
  obtain ⟨-, rfl⟩ | ⟨-, human, accepted, -, -, rfl⟩ := insertionGuard_eq_ok h <;> simp

end

/-! ## Arguments -/

namespace Argument

/-- The declarations of the conversion into a variable: the variable and what the
conversion declares. -/
theorem declsFor_eq (h : a.recipe.Scoped a.expr ds) :
    a.declsFor target = List.map Declaration.stmt (⟨a.names.storage, target⟩ :: ds) := by
  rw [declsFor, h.decls]
  rfl

theorem nodup_declsFor (h : a.recipe.Scoped a.expr ds) (ht : ¬ IsTemporary target) :
    (List.map Declaration.name (⟨a.names.storage, target⟩ :: ds)).Nodup :=
  have hone : [target].Nodup := List.nodup_cons.mpr ⟨List.not_mem_nil, List.nodup_nil⟩
  nodup_fixed_append hone (List.forall_mem_singleton.mpr ht) h.nodup h.temporary

theorem names_declsFor (h : a.recipe.Scoped a.expr ds) (ht : target ∈ fixed) :
    ∀ d ∈ (⟨a.names.storage, target⟩ :: ds : List Declaration),
      IsTemporary d.name ∨ d.name ∈ fixed :=
  List.forall_mem_cons.mpr ⟨Or.inr ht, fun d hd => Or.inl (h.temporary d hd)⟩

theorem takes_convertInto (h : a.recipe.Scoped a.expr ds) (hdecl : sc.Declares ds)
    (hglobal : ∀ x, IsGlobal x → x ∈ A) (ha : a.name ∈ A) :
    sc.TakesAll A (a.convertInto target) {target} := by
  have hsetup := h.takes sc A hdecl hglobal (by simpa using ha)
  exact (hsetup.append (takes_assign_name fun x hx => Or.inr hx).single).mono subset_rfl
    Set.subset_union_right

theorem takes_convertOr (h : a.recipe.Scoped a.expr ds) (hdecl : sc.Declares ds)
    (hglobal : ∀ x, IsGlobal x → x ∈ A) (ha : a.name ∈ A) {fallback : List Stmt}
    (hf : sc.TakesAll A fallback {target}) :
    sc.TakesAll A (a.convertOr target fallback) {target} := by
  have hinto : sc.TakesAll A (a.convertInto target) {target} :=
    takes_convertInto h hdecl hglobal ha
  rw [convertOr]
  split
  · exact (takes_attempt hinto hf).single
  · exact hinto

theorem tidy_convertInto (h : a.recipe.Scoped a.expr ds) (ht : target ∈ fixed) :
    Stmt.TidyAll fixed loops (a.convertInto target) := by
  simp [convertInto, h.tidy, ht]

theorem tidy_convertOr (h : a.recipe.Scoped a.expr ds) (ht : target ∈ fixed)
    {fallback : List Stmt} (hf : Stmt.TidyAll fixed loops fallback) :
    Stmt.TidyAll fixed loops (a.convertOr target fallback) := by
  rw [convertOr]
  split <;> simp [tidy_convertInto h ht, hf]

end Argument

/-! ## Methods with one argument -/

/-- What a method with an argument of some name takes from outside. -/
def outerOf (name : String) : List String := ["KeyError", "TypeError", "self", name]

/-- A method that converts its argument into a variable. -/
theorem wellScoped_convert {name : String} {stmts : List Stmt} (h : a.recipe.Scoped a.expr ds)
    (ha : a.name ∈ ["key", "value"]) (ht : target ∈ ["k", "s", "v"])
    (htidy : Stmt.TidyAll [target] [] stmts)
    (htakes : ∀ (sc : Scope) (A : Set String), sc.Declares ds → (∀ x, IsGlobal x → x ∈ A) →
      (∀ x ∈ outerOf a.name, x ∈ A) → sc.TakesAll A stmts ∅) :
    (method name [.plain a.name] (a.declsFor target) stmts).WellScoped := by
  have hall : ∀ n ∈ ["key", "value"], ∀ t ∈ ["k", "s", "v"], Apart [t] [] (outerOf n) := by
    decide
  have hapart := hall a.name ha target ht
  have hbody : (method name [.plain a.name] (a.declsFor target) stmts).body =
      some (List.map Declaration.stmt (⟨a.names.storage, target⟩ :: ds) ++ stmts) := by
    rw [← Argument.declsFor_eq h]
    rfl
  obtain ⟨htemporary, -⟩ := hapart.ofFixed target List.mem_cons_self
  refine Function.wellScoped_of_tidy hbody (Argument.nodup_declsFor h htemporary)
    (Argument.names_declsFor h List.mem_cons_self) ?_ hapart htidy fun sc A hdecl =>
      htakes sc A (hdecl.mono fun d => List.mem_cons_of_mem _)
  simp [outerOf]

theorem wellScoped_containsMethod (h : a.recipe.Scoped a.expr ds)
    (hk : accepted.reads = [a.name]) (ha : a.name ∈ ["key", "value"])
    (ht : target ∈ ["k", "s", "v"]) : (w.containsMethod a accepted target).WellScoped := by
  have ht' : target ∈ [target] := List.mem_singleton_self target
  refine wellScoped_convert h ha ht ?_ fun sc A hdecl hglobal hout => ?_
  · have hconvert : Stmt.TidyAll [target] [] (a.convertOr target [.give (.bool false)]) :=
      Argument.tidy_convertOr h ht' (by simp)
    simp [hconvert]
  · have ha' : a.name ∈ A := hout _ (by simp [outerOf])
    have hself : "self" ∈ A := hout _ (by simp [outerOf])
    have hno {B : Set String} : sc.TakesAll A [.give (.bool false)] B :=
      (takes_give (by simp)).single
    have hcheck : sc.TakesAll A [.when (.not accepted) [.give (.bool false)]] ∅ :=
      (takes_when (by simpa [hk] using ha') hno).single
    have hconvert : sc.TakesAll A (a.convertOr target [.give (.bool false)]) {target} :=
      Argument.takes_convertOr h hdecl hglobal ha' hno
    have hgive : sc.TakesAll (A ∪ {target})
        [.give (countPositive w.container (.name target))] ∅ :=
      (takes_give (by simp [hself])).single
    exact (hcheck.append (hconvert.append hgive).extend).forget

theorem wellScoped_removeMethod {name : String} (h : a.recipe.Scoped a.expr ds)
    (ha : a.name ∈ ["key", "value"]) (ht : target ∈ ["k", "s", "v"]) :
    (w.removeMethod name a target).WellScoped := by
  refine wellScoped_convert h ha ht ?_ fun sc A hdecl hglobal hout => ?_
  · simp [Argument.tidy_convertInto h]
  · have ha' : a.name ∈ A := hout _ (by simp [outerOf])
    have hself : "self" ∈ A := hout _ (by simp [outerOf])
    have hconvert : sc.TakesAll A (a.convertInto target) {target} :=
      Argument.takes_convertInto h hdecl hglobal ha'
    have herase : sc.TakesAll (A ∪ {target})
        [.expr (w.container.method "erase" [.name target])] ∅ :=
      (takes_expr (by simp [hself])).single
    exact (takes_when (by simp [self, ha', hself]) (hconvert.append herase).forget).single

theorem wellScoped_addMethod {g : Generator} {t : ElementType}
    (h : value.recipe.Scoped value.expr ds)
    (hg : insertionGuard g value.expr t "values" = .ok guards)
    (ha : value.name ∈ ["key", "value"]) : (addMethod value guards).WellScoped := by
  refine wellScoped_convert h ha (by decide) ?_ fun sc A hdecl hglobal hout => ?_
  · simp [Argument.tidy_convertInto h, tidy_insertionGuard hg]
  · have ha' : value.name ∈ A := hout _ (by simp [outerOf])
    have hself : "self" ∈ A := hout _ (by simp [outerOf])
    have hguard : sc.TakesAll A guards ∅ :=
      takes_insertionGuard hg (by simpa using ha') (hout _ (by simp [outerOf]))
    have hconvert : sc.TakesAll A (value.convertInto "v") {"v"} :=
      Argument.takes_convertInto h hdecl hglobal ha'
    have hinsert : sc.TakesAll (A ∪ (∅ ∪ {"v"}))
        [.expr (Vocabulary.set.container.method "insert" [.name "v"])] ∅ :=
      (takes_expr (by simp [hself])).single
    exact ((hguard.append hconvert.extend).append hinsert).forget

/-! ## Methods with a key and a value -/

/-- The declarations of the conversions of a key and a value. -/
theorem entryDecls_eq (hk : key.recipe.Scoped key.expr ks)
    (hv : value.recipe.Scoped value.expr vs) :
    entryDecls key value = (ks ++ vs).map Declaration.stmt := by
  rw [entryDecls, hk.decls, hv.decls, List.map_append]

theorem temporary_entry (hk : key.recipe.Scoped key.expr ks)
    (hv : value.recipe.Scoped value.expr vs) : ∀ d ∈ ks ++ vs, IsTemporary d.name :=
  List.forall_mem_append.mpr ⟨hk.temporary, hv.temporary⟩

theorem nodup_entry (hk : key.recipe.Scoped key.expr ks)
    (hv : value.recipe.Scoped value.expr vs) (hkey : key.name = "key")
    (hvalue : value.name = "value") :
    ((ks ++ vs).map Declaration.name).Nodup := by
  refine hk.nodup_append hv fun x => ?_
  rw [Argument.expr, Argument.expr, hkey, hvalue]
  exact Extends.not_of_apart (by decide) (by decide)

theorem takes_storeEntry (hk : key.recipe.Scoped key.expr ks)
    (hv : value.recipe.Scoped value.expr vs) (hdecl : sc.Declares (ks ++ vs))
    (hglobal : ∀ x, IsGlobal x → x ∈ A) (hkey : key.name ∈ A) (hvalue : value.name ∈ A)
    (hself : "self" ∈ A) : sc.TakesAll A (storeEntry key value) ∅ := by
  have hboth := hk.takes_both hv hdecl hglobal (by simpa using hkey) (by simpa using hvalue)
  refine (hboth.append (takes_assign_index (fun x hx => ?_) ?_ fun x hx => ?_).single).forget
  · exact Or.inr (Or.inr hx)
  · simp [hself]
  · exact Or.inr (Or.inl hx)

theorem tidy_storeEntry (hk : key.recipe.Scoped key.expr ks)
    (hv : value.recipe.Scoped value.expr vs) :
    Stmt.TidyAll fixed loops (storeEntry key value) := by
  simp [storeEntry, hk.tidy, hv.tidy]

theorem wellScoped_putMethod {g : Generator} {k t : ElementType} {keyGuards valueGuards : List Stmt}
    (hk : key.recipe.Scoped key.expr ks) (hv : value.recipe.Scoped value.expr vs)
    (hkg : insertionGuard g key.expr k "keys" = .ok keyGuards)
    (hvg : insertionGuard g value.expr t "values" = .ok valueGuards) (hkey : key.name = "key")
    (hvalue : value.name = "value") :
    (putMethod key value (keyGuards ++ valueGuards)).WellScoped := by
  have hapart : Apart [] [] ["TypeError", "self", "key", "value"] := by decide
  have hbody : (putMethod key value (keyGuards ++ valueGuards)).body =
      some ((ks ++ vs).map Declaration.stmt ++
        (keyGuards ++ valueGuards ++ storeEntry key value)) := by
    rw [← entryDecls_eq hk hv]
    rfl
  refine Function.wellScoped_of_tidy hbody (nodup_entry hk hv hkey hvalue)
    (fun d hd => Or.inl (temporary_entry hk hv d hd)) ?_ hapart ?_
    fun sc A hdecl hglobal hout => ?_
  · simp [putMethod, hkey, hvalue]
  · simp [tidy_insertionGuard hkg, tidy_insertionGuard hvg, tidy_storeEntry hk hv]
  · have hkey' : key.name ∈ A := hkey ▸ hout "key" (by decide)
    have hvalue' : value.name ∈ A := hvalue ▸ hout "value" (by decide)
    have htype : "TypeError" ∈ A := hout _ (by decide)
    have hguards : sc.TakesAll A (keyGuards ++ valueGuards) (∅ ∪ ∅) :=
      (takes_insertionGuard hkg (by simpa using hkey') htype).append
        (takes_insertionGuard hvg (by simpa using hvalue') htype).extend
    have hstore : sc.TakesAll A (storeEntry key value) ∅ :=
      takes_storeEntry hk hv hdecl hglobal hkey' hvalue' (hout _ (by decide))
    exact (hguards.append hstore.extend).forget

/-! ## Constructors -/

/-- The names of the vocabularies that a constructor takes from outside. -/
def constructorOuter (w : Vocabulary) : List String :=
  ["bool", "self", w.initArg, w.freeArg]

theorem takes_setField {name : String} {e : Expr} (hself : "self" ∈ A) (he : ∀ x ∈ e.reads, x ∈ A) :
    sc.Takes A (Stmt.assign (selfField name) e).paths ∅ :=
  takes_assign_field he (Or.inl hself)

/-- A constructor is well-scoped if its copies are. -/
theorem wellScoped_initMethod {copies : List (Expr × List Stmt)} (hw : w = .set ∨ w = .map)
    (hnodup : (ds.map Declaration.name).Nodup)
    (hnames : ∀ d ∈ ds, IsTemporary d.name ∨ d.name ∈ ["s"])
    (htidy : ∀ arm ∈ copies, Stmt.TidyAll ["s"] ["key", "value"] arm.2)
    (htakes : ∀ (sc : Scope) (A : Set String), sc.Declares ds → (∀ x, IsGlobal x → x ∈ A) →
      "self" ∈ A → w.initArg ∈ A →
      ∀ arm ∈ copies, (∀ x ∈ arm.1.reads, x ∈ A) ∧ sc.TakesAll A arm.2 ∅) :
    (w.initMethod n (ds.map Declaration.stmt) copies).WellScoped := by
  have hapart : Apart ["s"] ["key", "value"] (constructorOuter w) := by
    rcases hw with rfl | rfl <;> decide
  refine Function.wellScoped_of_tidy rfl hnodup hnames ?_ hapart ?_
    fun sc A hdecl hglobal hout => ?_
  · simp [Vocabulary.initMethod, constructorOuter]
  · have htail : Stmt.TidyArms ["s"] ["key", "value"]
        (copies ++ [(Expr.callName "bool" [w.initial], [w.allocate n, w.owns true])]) :=
      Stmt.tidyArms_iff.mpr (List.forall_mem_append.mpr
        ⟨htidy, List.forall_mem_singleton.mpr ⟨trivial, trivial, trivial⟩⟩)
    have hfree : Stmt.TidyAll ["s"] ["key", "value"]
        [.when (.binary .isNot (.name w.freeArg) .none)
          [.assign (selfField w.freeFlag) (.name w.freeArg)]] :=
      ⟨Stmt.tidy_when.mpr ⟨trivial, trivial⟩, trivial⟩
    exact ⟨⟨⟨⟨trivial, trivial, trivial, trivial⟩, htail⟩, trivial, trivial⟩, hfree⟩
  · have hself : "self" ∈ A := hout _ (by simp [constructorOuter])
    have hinit : w.initArg ∈ A := hout _ (by simp [constructorOuter])
    have hfree : w.freeArg ∈ A := hout _ (by simp [constructorOuter])
    have hbool : "bool" ∈ A := hout _ (by simp [constructorOuter])
    have howns (flag : Bool) : sc.Takes A (w.owns flag).paths ∅ := takes_setField hself (by simp)
    have hshare : sc.TakesAll A
        [.assign w.container (.attr (.cast n.extensionClass w.initial) w.pointer),
          .assign (selfField "_owner") w.initial, w.owns false] ∅ :=
      takes_each (List.forall_mem_cons.mpr ⟨takes_setField hself (by simpa using hinit),
        List.forall_mem_cons.mpr ⟨takes_setField hself (by simpa using hinit),
          List.forall_mem_singleton.mpr (howns false)⟩⟩)
    have hfresh : sc.TakesAll A [w.allocate n, w.owns true] ∅ :=
      takes_each (List.forall_mem_cons.mpr ⟨takes_setField hself (by simp),
        List.forall_mem_singleton.mpr (howns true)⟩)
    have hset : sc.TakesAll A [.assign (selfField w.freeFlag) (.name w.freeArg)] ∅ :=
      (takes_setField hself (by simpa using hfree)).single
    have hcopies := htakes sc A hdecl hglobal hself hinit
    refine takes_each (List.forall_mem_cons.mpr ⟨?_, List.forall_mem_singleton.mpr
      (takes_when (by simpa using hfree) hset)⟩)
    refine takes_arms (howns false).single (List.forall_mem_cons.mpr
      ⟨⟨by simpa using hinit, hshare⟩, List.forall_mem_append.mpr ⟨hcopies,
        List.forall_mem_singleton.mpr ⟨by simpa using ⟨hbool, hinit⟩, hfresh⟩⟩⟩)

/-- A copy of a collection goes through it in a loop. -/
theorem takes_copy (hself : "self" ∈ A) {targets : List String} {source : Expr} {body : List Stmt}
    (hs : ∀ x ∈ source.reads, x ∈ A) (hbody : sc.TakesAll (A ∪ {x | x ∈ targets}) body ∅) :
    sc.TakesAll A [w.allocate n, .forEach targets source body, w.owns true] ∅ :=
  takes_each (List.forall_mem_cons.mpr ⟨takes_setField hself (by simp),
    List.forall_mem_cons.mpr ⟨takes_forEach hs hbody,
      List.forall_mem_singleton.mpr (takes_setField hself (by simp))⟩⟩)

theorem wellScoped_setInitMethod (h : value.recipe.Scoped value.expr ds)
    (hvalue : value.name = "value") : (setInitMethod n value).WellScoped := by
  rw [setInitMethod, Argument.declsFor_eq h]
  refine wellScoped_initMethod (Or.inl rfl) (Argument.nodup_declsFor h (by decide))
    (Argument.names_declsFor h (by decide)) ?_ fun sc A hdecl hglobal hself hinit => ?_
  · have hinsert : Stmt.TidyAll ["s"] ["key", "value"] (value.convertInto "s") :=
      Argument.tidy_convertInto h (by decide)
    refine List.forall_mem_singleton.mpr ⟨trivial, ⟨?_, ?_⟩, trivial, trivial⟩
    · simp [hvalue]
    · simp [hinsert]
  · let A' : Set String := A ∪ {x | x ∈ [value.name]}
    have hconvert : sc.TakesAll A' (value.convertInto "s") {"s"} :=
      Argument.takes_convertInto h (hdecl.mono fun d => List.mem_cons_of_mem _)
        (fun x hx => Or.inl (hglobal x hx)) (Or.inr List.mem_cons_self)
    have hinsert : sc.TakesAll (A' ∪ {"s"})
        [.expr (Vocabulary.set.container.method "insert" [.name "s"])] ∅ :=
      (takes_expr (by simp [A', hself])).single
    exact List.forall_mem_singleton.mpr ⟨by simpa [isIterable] using hinit,
      takes_copy hself (by simpa using hinit) (hconvert.append hinsert).forget⟩

theorem wellScoped_mapInitMethod (hk : key.recipe.Scoped key.expr ks)
    (hv : value.recipe.Scoped value.expr vs) (hkey : key.name = "key")
    (hvalue : value.name = "value") : (mapInitMethod n key value).WellScoped := by
  rw [mapInitMethod, entryDecls_eq hk hv]
  have htidy (pairs : Expr) : Stmt.TidyAll ["s"] ["key", "value"]
      [Vocabulary.map.allocate n, .forEach [key.name, value.name] pairs (storeEntry key value),
        Vocabulary.map.owns true] := by
    refine ⟨trivial, ⟨?_, tidy_storeEntry hk hv⟩, trivial, trivial⟩
    simp [hkey, hvalue]
  refine wellScoped_initMethod (Or.inr rfl) (nodup_entry hk hv hkey hvalue)
    (fun d hd => Or.inl (temporary_entry hk hv d hd))
    (List.forall_mem_cons.mpr ⟨htidy _, List.forall_mem_singleton.mpr (htidy _)⟩)
    fun sc A hdecl hglobal hself hinit => ?_
  have hstore : sc.TakesAll (A ∪ {x | x ∈ [key.name, value.name]}) (storeEntry key value) ∅ :=
    takes_storeEntry hk hv hdecl (fun x hx => Or.inl (hglobal x hx)) (by simp) (by simp)
      (Or.inl hself)
  refine List.forall_mem_cons.mpr ⟨⟨by simpa using hinit, takes_copy hself ?_ hstore⟩,
    List.forall_mem_singleton.mpr ⟨by simpa using hinit, takes_copy hself ?_ hstore⟩⟩
  all_goals simpa using hinit

/-! ## Lookup -/

theorem wellScoped_getMethod {storage : String} {found : Recipe}
    (hk : key.recipe.Scoped key.expr ks) (ha : accepted.reads = [key.name])
    (hv : found.Scoped (.name "v") vs) (hkey : key.name = "key") :
    (getMethod key accepted storage found).WellScoped := by
  have hapart : Apart ["k", "v"] [] (outerOf "key") := by decide
  have hbody : (getMethod key accepted storage found).body = some (List.map Declaration.stmt
      (⟨key.names.storage, "k"⟩ :: ks ++ ⟨storage, "v"⟩ :: vs) ++
        (.when (.not accepted) [raiseType key.names.human "keys"] ::
          key.convertOr "k" [raiseKey key.expr] ++
          [Stmt.ifElse (countPositive Vocabulary.map.container (.name "k"))
            (.assign (.name "v") (.index (.deref Vocabulary.map.container) (.name "k")) ::
              found.setup ++ [Stmt.give found.result])
            [raiseKey key.expr]])) := by
    rw [List.map_append, ← Argument.declsFor_eq hk, List.map_cons, ← hv.decls]
    rfl
  have hnodup : ((⟨key.names.storage, "k"⟩ :: ks ++ ⟨storage, "v"⟩ :: vs).map
      Declaration.name).Nodup := by
    have hboth : ((ks ++ vs).map Declaration.name).Nodup := by
      refine hk.nodup_append hv fun x => ?_
      rw [Argument.expr, hkey]
      exact Extends.not_of_apart (by decide) (by decide)
    have hall : (["v", "k"] ++ (ks ++ vs).map Declaration.name).Nodup :=
      nodup_fixed_append (by decide) (by decide) hboth
        (List.forall_mem_append.mpr ⟨hk.temporary, hv.temporary⟩)
    exact ((List.perm_middle.map Declaration.name).nodup_iff).mpr hall
  refine Function.wellScoped_of_tidy hbody hnodup ?_ ?_ hapart ?_ fun sc A hdecl hglobal hout => ?_
  · exact List.forall_mem_append.mpr ⟨Argument.names_declsFor hk (by decide),
      List.forall_mem_cons.mpr ⟨Or.inr (by simp), fun d hd => Or.inl (hv.temporary d hd)⟩⟩
  · simp [getMethod, outerOf, hkey]
  · have hconvert : Stmt.TidyAll ["k", "v"] [] (key.convertOr "k" [raiseKey key.expr]) :=
      Argument.tidy_convertOr hk (by decide) ⟨trivial, trivial⟩
    simp [hconvert, hv.tidy]
  · have hkey' : key.name ∈ A := hkey ▸ hout "key" (by decide)
    have hself : "self" ∈ A := hout _ (by decide)
    have herror : "KeyError" ∈ A := hout _ (by decide)
    have hcheck : sc.Takes A
        (Stmt.when (.not accepted) [raiseType key.names.human "keys"]).paths ∅ :=
      takes_when (by simpa [ha] using hkey') (takes_raiseType (hout _ (by decide)))
    have hconvert : sc.TakesAll A (key.convertOr "k" [raiseKey key.expr]) {"k"} :=
      Argument.takes_convertOr hk (hdecl.mono fun d hd => by simp [hd]) hglobal hkey'
        (takes_raiseKey herror (by simpa using hkey'))
    let A' : Set String := A ∪ (∅ ∪ {"k"})
    have hassign : sc.Takes A'
        (Stmt.assign (.name "v") (.index (.deref Vocabulary.map.container) (.name "k"))).paths
        {"v"} := takes_assign_name (by simp [A', hself])
    have hfound : sc.TakesAll (A' ∪ {"v"}) found.setup {x | x ∈ found.result.reads} :=
      hv.takes sc _ (hdecl.mono fun d hd => by simp [hd]) (fun x hx => by simp [A', hglobal x hx])
        (by simp)
    have hgive : sc.TakesAll (A' ∪ {"v"} ∪ {x | x ∈ found.result.reads}) [.give found.result] ∅ :=
      (takes_give fun x hx => Or.inr hx).single
    have hlookup := takes_ifElse (e := countPositive Vocabulary.map.container (.name "k"))
      (by simp [A', hself]) (hassign.cons (hfound.append hgive))
      (takes_raiseKey (e := key.expr) (by simp [A', herror]) (by simp [A', hkey']))
    exact ((hcheck.cons hconvert.extend).append hlookup.single).forget

/-! ## Iterators -/

section
variable {p : IteratorPlan}

/-- Nothing is read before the two positions are assigned. -/
theorem wellScoped_initPosition (hp : p.pointer ∈ ["map_ptr", "set_ptr"]) :
    p.initMethod.WellScoped := by
  have hpointer : ∀ x ∈ ["map_ptr", "set_ptr"], x ≠ "itn" ∧ x ≠ "ite" := by decide
  obtain ⟨hitn, hite⟩ := hpointer p.pointer hp
  have hends : EndsIn [".iterator"] p.position := endsIn_append (by decide) p.storage
  have hposition : p.position ≠ "itn" ∧ p.position ≠ "ite" := by
    constructor
    all_goals
      intro h
      rw [h] at hends
      exact absurd hends (by decide)
  let ds : List Declaration := [⟨p.positionPointer, "itn"⟩, ⟨p.positionPointer, "ite"⟩]
  have hbody : p.initMethod.body = some (ds.map Declaration.stmt ++
      (p.keepPosition "itn" "iter_now" "begin" ++ p.keepPosition "ite" "iter_end" "end")) := rfl
  refine Function.wellScoped_of_straight hbody (by simp [ds]) ?_ ?_
  · simp [ds, IteratorPlan.initMethod, Function.storageLevel, selfParam, Ne.symm hitn, Ne.symm hite]
  · show settles ["itn", "ite", "itn", "ite"]
      [.read "malloc", .read "sizeof", .read p.position, .bind "itn", .read p.pointer,
        .read "itn", .read "itn", .setField "self" "iter_now", .read "malloc", .read "sizeof",
        .read p.position, .bind "ite", .read p.pointer, .read "ite", .read "ite",
        .setField "self" "iter_end"] = true
    simp [hposition, hitn, hite]

theorem wellScoped_nextMethod {value : Recipe} (hreads : ∀ e, (p.project e).reads = e.reads)
    (h : value.Scoped (p.project (.deref (.name "inow"))) ds) :
    (p.nextMethod value).WellScoped := by
  have hapart : Apart ["inow", "iend", "pyval"] [] ["StopIteration", "self"] := by decide
  have hbody : (p.nextMethod value).body = some (List.map Declaration.stmt
      (⟨p.position, "inow"⟩ :: ⟨p.position, "iend"⟩ :: ds) ++
        ([.assign (.name "inow") (.deref (selfField "iter_now")),
          .assign (.name "iend") (.deref (selfField "iter_end")),
          .ifElse (.binary .notEq (.name "inow") (.name "iend"))
            (value.setup ++ [Stmt.assign (.name "pyval") value.result])
            [.raise (.name "StopIteration")],
          .expr (.inc (.deref (selfField "iter_now"))),
          .give (.name "pyval")] : List Stmt)) := by
    rw [List.map_cons, List.map_cons, ← h.decls]
    rfl
  have hnodup : (["inow", "iend"] ++ ds.map Declaration.name).Nodup :=
    nodup_fixed_append (by decide) (by decide) h.nodup h.temporary
  refine Function.wellScoped_of_tidy hbody hnodup ?_ ?_ hapart ?_ fun sc A hdecl hglobal hout => ?_
  · exact List.forall_mem_cons.mpr ⟨Or.inr (by simp), List.forall_mem_cons.mpr
      ⟨Or.inr (by simp), fun d hd => Or.inl (h.temporary d hd)⟩⟩
  · simp [IteratorPlan.nextMethod]
  · simp [h.tidy]
  · have hself : "self" ∈ A := hout _ (by decide)
    let A' : Set String := A ∪ {"inow"} ∪ {"iend"}
    have hnow : sc.Takes A (Stmt.assign (.name "inow") (.deref (selfField "iter_now"))).paths
        {"inow"} := takes_assign_name (by simpa using hself)
    have hend : sc.Takes (A ∪ {"inow"})
        (Stmt.assign (.name "iend") (.deref (selfField "iter_end"))).paths {"iend"} :=
      takes_assign_name (by simp [hself])
    have hsetup : sc.TakesAll A' value.setup {x | x ∈ value.result.reads} :=
      h.takes sc A' (hdecl.mono fun d hd => by simp [hd]) (fun x hx => by simp [A', hglobal x hx])
        (by simp [hreads, A'])
    have hresult : sc.TakesAll (A' ∪ {x | x ∈ value.result.reads})
        [.assign (.name "pyval") value.result] {"pyval"} :=
      (takes_assign_name fun x hx => Or.inr hx).single
    have hstop : sc.TakesAll A' [.raise (.name "StopIteration")]
        ({x | x ∈ value.result.reads} ∪ {"pyval"}) :=
      (takes_raise (by simp [A', hout])).single
    have hitem := takes_ifElse (e := .binary .notEq (.name "inow") (.name "iend"))
      (by simp [A']) (hsetup.append hresult) hstop
    have hstep : sc.Takes (A' ∪ ({x | x ∈ value.result.reads} ∪ {"pyval"}))
        (Stmt.expr (.inc (.deref (selfField "iter_now")))).paths ∅ :=
      takes_expr (by simp [A', hself])
    have hgive : sc.TakesAll (A' ∪ ({x | x ∈ value.result.reads} ∪ {"pyval"}) ∪ ∅)
        [.give (.name "pyval")] ∅ := (takes_give (by simp)).single
    exact (hnow.cons (hend.cons (hitem.cons (hstep.cons hgive)))).forget

/-- The fresh iterator is assigned before it is read; its class has another name. -/
theorem wellScoped_iterMethod (hw : w = .set ∨ w = .map) (hn : n.iteratorClass ≠ w.iterator) :
    (w.iterMethod n).WellScoped := by
  have hbody : (w.iterMethod n).body = some (List.map Declaration.stmt
      [⟨n.iteratorClass, w.iterator⟩] ++
        ([.assign (.name w.iterator) (.callName n.iteratorClass []),
          .expr ((Expr.name w.iterator).method "init" [w.container]),
          .assign (.attr (.name w.iterator) "_owner") self,
          .give (.name w.iterator)] : List Stmt)) := rfl
  have hself : w.iterator ≠ "self" := by rcases hw with rfl | rfl <;> decide
  refine Function.wellScoped_of_straight hbody (by simp) ?_ ?_
  · simp [Vocabulary.iterMethod, hself]
  · show settles [w.iterator, w.iterator]
      [.read n.iteratorClass, .bind w.iterator, .read w.iterator, .read "self", .read "self",
        .setField w.iterator "_owner", .read w.iterator] = true
    simp [hn]

end

/-! ## Methods without local names -/

theorem wellScoped_lengthMethod : w.lengthMethod.WellScoped :=
  Function.wellScoped_undeclared rfl rfl

theorem wellScoped_releasePositions : IteratorPlan.releaseMethod.WellScoped :=
  Function.wellScoped_undeclared rfl rfl

theorem wellScoped_iterSelf : (method "__iter__" [] [] [.give self]).WellScoped :=
  Function.wellScoped_undeclared rfl rfl

theorem wellScoped_releaseMethod : w.releaseMethod.WellScoped := by
  have hbody : w.releaseMethod.body = some (List.map Declaration.stmt [] ++
      [Stmt.when (selfField w.freeFlag) [.delete w.container]]) := rfl
  have hapart : Apart [] [] ["self"] := by decide
  refine Function.wellScoped_of_tidy hbody List.nodup_nil (List.forall_mem_nil _) ?_ hapart ?_
    fun sc A _ _ hout => ?_
  · simp [Vocabulary.releaseMethod]
  · simp
  · have hself : "self" ∈ A := hout _ (by decide)
    exact (takes_when (by simpa using hself) (takes_delete (by simpa using hself)).single).single

theorem wellScoped_publicClass {base doc : String} {shown : Expr}
    (hshown : straight [] [.give shown] = true) :
    ∀ f ∈ (publicClass n base doc shown).methods, f.WellScoped :=
  List.forall_mem_cons.mpr ⟨Function.wellScoped_undeclared rfl rfl,
    List.forall_mem_singleton.mpr (Function.wellScoped_undeclared rfl hshown)⟩

/-! ## Scenario tests -/

/-- Names for scenarios of which only the events matter. -/
def blankNames : WrapperNames := ⟨"", "", "", "", ""⟩

/-- What is read and assigned in a scenario does not depend on the names of classes and on
samples. -/
theorem straight_setScenario (samples : List Literal) :
    straight [] (setScenario n samples) = straight [] (setScenario blankNames []) := rfl

theorem wellScoped_setScenario (samples : List Literal) :
    (Function.hostCallable n.test [] (setScenario n samples)).WellScoped := by
  refine Function.wellScoped_undeclared rfl ?_
  rw [straight_setScenario]
  decide +kernel

/-- Beside that, the comparison decides which assertion is called. -/
theorem straight_mapScenario (samples : Samples) {t : ElementType} {c : Comparison}
    (hc : samples.comparison t = c) (keys values : List Literal) :
    straight [] (mapScenario n samples t keys values) = straight []
      (mapScenario blankNames ⟨fun _ => .ok [], fun _ => c⟩ (.primitive .str) [] []) := by
  simp only [mapScenario, assertSame, hc]
  rfl

theorem wellScoped_mapScenario (samples : Samples) (t : ElementType) (keys values : List Literal) :
    (Function.hostCallable n.test [] (mapScenario n samples t keys values)).WellScoped := by
  refine Function.wellScoped_undeclared rfl ?_
  rw [straight_mapScenario samples rfl]
  cases samples.comparison t <;> decide +kernel

/-! ## Converters -/

theorem wellScoped_converter {returns name type param : String} {r : Recipe}
    (h : r.Scoped (.name param) ds) (hp : param ∈ ["pyset", "cppset", "pydict", "cppmap"]) :
    (converter returns name (.typed type param) r).WellScoped := by
  have hall : ∀ x ∈ ["pyset", "cppset", "pydict", "cppmap"], Apart [] [] [x] := by decide
  have hbody : (converter returns name (.typed type param) r).body =
      some (ds.map Declaration.stmt ++ (r.setup ++ [Stmt.give r.result])) := by
    rw [← h.decls, ← List.append_assoc]
    rfl
  refine Function.wellScoped_of_tidy hbody h.nodup (fun d hd => Or.inl (h.temporary d hd)) ?_
    (hall param hp) ?_ fun sc A hdecl hglobal hout => ?_
  · simp [converter, Function.storageLevel]
  · simp [h.tidy]
  · have hsetup := h.takes sc A hdecl hglobal (by simpa using hout)
    have hgive : sc.TakesAll (A ∪ {x | x ∈ r.result.reads}) [.give r.result] ∅ :=
      (takes_give fun x hx => Or.inr hx).single
    exact (hsetup.append hgive).forget

/-! ## Classes and fragments -/

/-- The code of an argument is scoped. -/
theorem scoped_argument {name : String} {t : ElementType} {names : ElementNames}
    (h : Argument.of .builtin name t names = .ok a) :
    a.name = name ∧ ∃ ds, a.recipe.Scoped a.expr ds := by
  obtain ⟨recipe, hr, rfl⟩ := Argument.of_eq_ok h
  exact ⟨rfl, Catalog.toStorage_scoped hr⟩

theorem wellScoped_classDef {p : IteratorPlan} {c : ClassDef}
    (hp : p.pointer ∈ ["map_ptr", "set_ptr"]) (hreads : ∀ e, (p.project e).reads = e.reads)
    (h : p.classDef .builtin = .ok c) : ∀ f ∈ c.methods, f.WellScoped := by
  obtain ⟨value, hv, h⟩ := bind_eq_ok h
  cases h
  obtain ⟨ds, hds⟩ := Catalog.toHost_scoped hv
  exact List.forall_mem_cons.mpr ⟨wellScoped_initPosition hp, List.forall_mem_cons.mpr
    ⟨wellScoped_releasePositions, List.forall_mem_cons.mpr ⟨wellScoped_iterSelf,
      List.forall_mem_singleton.mpr (wellScoped_nextMethod hreads hds)⟩⟩⟩

/-- A function without a body is well-scoped. -/
theorem wellScoped_declaration (f : Function) : f.declaration.WellScoped := nofun

theorem wellScoped_interfaceFragment (p : IteratorPlan) :
    Fragment.WellScoped (w.interfaceFragment n p) := by
  refine List.forall_mem_cons.mpr ⟨List.forall_mem_nil _, List.forall_mem_cons.mpr
    ⟨List.forall_mem_singleton.mpr (wellScoped_declaration _),
      List.forall_mem_singleton.mpr (List.forall_mem_nil _)⟩⟩

theorem wellScoped_testFragment {body : List Stmt}
    (h : (Function.hostCallable n.test [] body).WellScoped) :
    Fragment.WellScoped (testFragment n body) :=
  List.forall_mem_cons.mpr ⟨List.forall_mem_nil _,
    List.forall_mem_singleton.mpr (List.forall_mem_singleton.mpr h)⟩

/-- The name of an iterator class starts with an underscore. -/
theorem iteratorClass_ne (head parts storage test : String) :
    ∀ x ∈ ["mi", "si"], (WrapperNames.family head parts storage test).iteratorClass ≠ x := by
  have hhead : ∀ x ∈ ["mi", "si"], x.toList.head? ≠ some '_' := by decide
  intro x hx h
  refine hhead x hx ?_
  rw [← h]
  simp [WrapperNames.family]

/-- The implementation of a wrapper has three classes. -/
theorem wellScoped_classes {comment : String} {iterator extension users : ClassDef}
    (hi : ∀ f ∈ iterator.methods, f.WellScoped) (he : ∀ f ∈ extension.methods, f.WellScoped)
    (hu : ∀ f ∈ users.methods, f.WellScoped) : Fragment.WellScoped
      [.comment comment, .classDef iterator, .classDef extension, .classDef users] :=
  List.forall_mem_cons.mpr ⟨List.forall_mem_nil _, List.forall_mem_cons.mpr
    ⟨hi, List.forall_mem_cons.mpr ⟨he, List.forall_mem_singleton.mpr hu⟩⟩⟩

end Bundle

namespace Generator

open WrapGen.Bundle

variable {samples : Samples} {insertion : Insertion} {b : Bundle}

theorem wellScoped_setWrapper {e : ElementType}
    (h : setWrapper ⟨.builtin, samples, insertion⟩ e = .ok b) (u : CodeUnit) :
    Fragment.WellScoped (b.get u) := by
  obtain ⟨names, f, values, hnames, hf, -, rfl⟩ := setWrapper_eq_ok h
  cases u with
  | implementation =>
    obtain ⟨parts, element, -, -, rfl⟩ := SetNames.of_eq_ok hnames
    obtain ⟨value, accepted, guards, iterator, hv, ha, hg, hi, rfl⟩ := setImplementation_eq_ok hf
    obtain ⟨hname, ds, hds⟩ := scoped_argument hv
    have harg : value.name ∈ ["key", "value"] := by simp [hname]
    have hpointer : "set_ptr" ∈ ["map_ptr", "set_ptr"] := by decide
    refine wellScoped_classes (wellScoped_classDef hpointer (fun _ => rfl) hi) ?_
      (wellScoped_publicClass rfl)
    simp only [setClass, extensionClass, List.forall_mem_cons]
    exact ⟨wellScoped_setInitMethod hds hname, wellScoped_releaseMethod,
      wellScoped_containsMethod hds (reads_typeCheck ha) harg (by decide), wellScoped_lengthMethod,
      wellScoped_iterMethod (Or.inl rfl) (iteratorClass_ne _ _ _ _ _ (by decide)),
      wellScoped_addMethod hds hg harg, wellScoped_removeMethod hds harg (by decide),
      List.forall_mem_nil _⟩
  | interface => exact wellScoped_interfaceFragment _
  | tests => exact wellScoped_testFragment (wellScoped_setScenario _)

theorem wellScoped_mapWrapper {k v : ElementType}
    (h : mapWrapper ⟨.builtin, samples, insertion⟩ k v = .ok b) (u : CodeUnit) :
    Fragment.WellScoped (b.get u) := by
  obtain ⟨names, f, keys, values, hnames, hf, -, -, rfl⟩ := mapWrapper_eq_ok h
  cases u with
  | implementation =>
    obtain ⟨keyPart, valuePart, keyNames, valueNames, -, -, -, -, rfl⟩ :=
      MapNames.of_eq_ok hnames
    obtain ⟨key, value, found, accepted, keyGuards, valueGuards, iterator, hk, hv, hfound, ha, hkg,
      hvg, hi, rfl⟩ := mapImplementation_eq_ok hf
    obtain ⟨hkey, ks, hks⟩ := scoped_argument hk
    obtain ⟨hvalue, vs, hvs⟩ := scoped_argument hv
    obtain ⟨fs, hfs⟩ := Catalog.toHost_scoped hfound
    have harg : key.name ∈ ["key", "value"] := by simp [hkey]
    have hpointer : "map_ptr" ∈ ["map_ptr", "set_ptr"] := by decide
    refine wellScoped_classes (wellScoped_classDef hpointer (fun _ => rfl) hi) ?_
      (wellScoped_publicClass rfl)
    simp only [mapClass, extensionClass, List.forall_mem_cons]
    exact ⟨wellScoped_mapInitMethod hks hvs hkey hvalue, wellScoped_releaseMethod,
      wellScoped_containsMethod hks (reads_typeCheck ha) harg (by decide), wellScoped_lengthMethod,
      wellScoped_iterMethod (Or.inr rfl) (iteratorClass_ne _ _ _ _ _ (by decide)),
      wellScoped_getMethod hks (reads_typeCheck ha) hfs hkey,
      wellScoped_putMethod hks hvs hkg hvg hkey hvalue,
      wellScoped_removeMethod hks harg (by decide), List.forall_mem_nil _⟩
  | interface => exact wellScoped_interfaceFragment _
  | tests => exact wellScoped_testFragment (wellScoped_mapScenario _ _ _ _)

theorem wellScoped_converters {names : ConverterNames} {t : ElementType} {kind : HostKind}
    {hostParam storageParam : String}
    (hhost : hostParam ∈ ["pyset", "cppset", "pydict", "cppmap"])
    (hstorage : storageParam ∈ ["pyset", "cppset", "pydict", "cppmap"])
    (h : converters ⟨.builtin, samples, insertion⟩ names t kind hostParam storageParam = .ok b)
    (u : CodeUnit) : Fragment.WellScoped (b.get u) := by
  obtain ⟨inward, outward, hin, hout, rfl⟩ := converters_eq_ok h
  cases u with
  | implementation =>
    obtain ⟨ds, hds⟩ := Catalog.toStorage_scoped hin
    obtain ⟨es, hes⟩ := Catalog.toHost_scoped hout
    exact List.forall_mem_cons.mpr ⟨List.forall_mem_nil _, List.forall_mem_cons.mpr
      ⟨List.forall_mem_singleton.mpr (wellScoped_converter hds hhost),
        List.forall_mem_singleton.mpr
          (List.forall_mem_singleton.mpr (wellScoped_converter hes hstorage))⟩⟩
  | interface =>
    exact List.forall_mem_cons.mpr ⟨List.forall_mem_nil _, List.forall_mem_cons.mpr
      ⟨List.forall_mem_singleton.mpr (wellScoped_declaration _),
        List.forall_mem_singleton.mpr (List.forall_mem_singleton.mpr (wellScoped_declaration _))⟩⟩
  | tests => exact List.forall_mem_nil _

end Generator

/-- Every function that is generated from the built-in catalog is well-scoped, whatever
the samples and the insertion. Its declarations come first, and they are distinct from each
other, from the parameters and from what is looped over. On no path a local name is
read before it has a value. -/
theorem Request.functions_wellScoped {samples : Samples} {insertion : Insertion} {r : Request}
    {b : Bundle} (h : r.bundle ⟨.builtin, samples, insertion⟩ = .ok b) (u : CodeUnit) :
    Fragment.WellScoped (b.get u) := by
  have hmade := mapError_eq_ok_iff.mp h
  cases r with
  | set e => exact Generator.wellScoped_setWrapper hmade u
  | map k v => exact Generator.wellScoped_mapWrapper hmade u
  | setConverters e =>
    obtain ⟨e', -, hmade⟩ := bind_eq_ok hmade
    obtain ⟨names, -, hmade⟩ := bind_eq_ok hmade
    exact Generator.wellScoped_converters (by decide) (by decide) hmade u
  | mapConverters k v =>
    obtain ⟨k', -, hmade⟩ := bind_eq_ok hmade
    obtain ⟨names, -, hmade⟩ := bind_eq_ok hmade
    exact Generator.wellScoped_converters (by decide) (by decide) hmade u

/-- A map whose values nest sets in maps: the temporaries of every level stand beside the
variables of the methods. -/
theorem Request.functions_wellScoped_nested :
    let r : Request :=
      .map (.primitive .str) (.map (.primitive .int64) (.set (.primitive .complex128)))
    ∃ b, r.bundle ⟨.builtin, .builtin, .strict⟩ = .ok b ∧
      Code.Fragment.WellScoped (b.get .implementation) ∧
      ((b.get .implementation).flatMap Code.Item.functions).length = 14 := by
  intro r
  exact ⟨_, rfl, @Request.functions_wellScoped .builtin .strict r _ rfl .implementation, rfl⟩

end WrapGen
