import WrapGen.Proofs.Conversion.Scoped

/-!
# The names that a conversion introduces are fresh

A conversion introduces a name where it declares it, loops over it, or assigns to it
without a declaration. No two places introduce one name, all names extend the stem of
the source, and none is the name that the source starts from.

The names of one level are the stem with different suffixes. Those of the levels inside
extend the stem with a suffix, and of two levels side by side each has a suffix of its
own (`Below`), so no level meets another.

* `introductions_fresh`: the code of every type, in both directions, for every source
  that selects from a name.
-/
namespace WrapGen

open Code Text

/-! ## Distinct names under a stem -/

/-- Distinct names that extend a stem. -/
structure DistinctUnder (p : String) (xs : List String) : Prop where
  nodup : xs.Nodup
  extend : ∀ x ∈ xs, Extends p x

/-- Distinct names that extend a stem with a suffix. -/
structure Below (p : String) (xs : List String) : Prop where
  nodup : xs.Nodup
  extend : ∀ x ∈ xs, ∃ s, IsSuffix s ∧ Extends (p ++ s) x

section
variable {p s t : String} {xs ys : List String}

theorem below_nil : Below p [] := ⟨List.nodup_nil, List.forall_mem_nil _⟩

theorem DistinctUnder.below (h : DistinctUnder (p ++ s) xs) (hs : IsSuffix s) : Below p xs :=
  ⟨h.nodup, fun x hx => ⟨s, hs, h.extend x hx⟩⟩

/-- Names under different suffixes are different. -/
theorem DistinctUnder.below_append (hx : DistinctUnder (p ++ s) xs)
    (hy : DistinctUnder (p ++ t) ys) (hs : IsSuffix s) (ht : IsSuffix t) (hne : s ≠ t) :
    Below p (xs ++ ys) := by
  refine ⟨List.nodup_append.mpr ⟨hx.nodup, hy.nodup, ?_⟩, List.forall_mem_append.mpr
    ⟨(hx.below hs).extend, (hy.below ht).extend⟩⟩
  rintro x hmx _ hmy rfl
  exact (hx.extend x hmx).not_of_suffix hs ht hne (hy.extend x hmy)

theorem Below.distinctUnder (h : Below p xs) : DistinctUnder p xs := by
  refine ⟨h.nodup, fun x hx => ?_⟩
  obtain ⟨s, hs, hextends⟩ := h.extend x hx
  exact hs.extends.trans hextends

/-- No name below is the stem with a suffix. -/
theorem Below.not_mem (h : Below p xs) (hs : IsSuffix s) : p ++ s ∉ xs := by
  intro hm
  obtain ⟨t, ht, hextends⟩ := h.extend _ hm
  exact ht.not_extends hs hextends

theorem Below.cons (h : Below p xs) (hs : IsSuffix s) : DistinctUnder p ((p ++ s) :: xs) :=
  ⟨List.nodup_cons.mpr ⟨h.not_mem hs, h.nodup⟩,
    List.forall_mem_cons.mpr ⟨hs.extends, h.distinctUnder.extend⟩⟩

theorem Below.cons_cons (h : Below p xs) (hs : IsSuffix s) (ht : IsSuffix t) (hne : s ≠ t) :
    DistinctUnder p ((p ++ s) :: (p ++ t) :: xs) := by
  refine ⟨List.nodup_cons.mpr ⟨?_, (h.cons ht).nodup⟩,
    List.forall_mem_cons.mpr ⟨hs.extends, (h.cons ht).extend⟩⟩
  rw [List.mem_cons, not_or]
  exact ⟨append_ne hne, h.not_mem hs⟩

end

/-! ## The names of a recipe -/

namespace Code

namespace Stmt

/-- The name that a statement declares. -/
def declaredName : Stmt → List String
  | .decl _ (.name x) => [x]
  | _ => []

theorem nestedAll_append : ∀ ss ts : List Stmt, nestedAll (ss ++ ts) = nestedAll ss ++ nestedAll ts
  | [], _ => rfl
  | s :: ss, ts => by
    rw [List.cons_append, nestedAll, nestedAll, nestedAll_append ss ts, List.append_assoc]

/-- What the statements of a block have, at every depth. -/
def collect (f : Stmt → List String) (ss : List Stmt) : List String := (nestedAll ss).flatMap f

section
variable (f : Stmt → List String) (ss ts body : List Stmt) (e target : Expr)

theorem collect_nil : collect f [] = [] := rfl

theorem collect_append : collect f (ss ++ ts) = collect f ss ++ collect f ts := by
  rw [collect, nestedAll_append, List.flatMap_append, collect, collect]

theorem collect_assign :
    collect f (.assign target e :: ss) = f (.assign target e) ++ collect f ss := rfl

theorem collect_forEach (targets : List String) : collect f (.forEach targets e body :: ss) =
    f (.forEach targets e body) ++ (collect f body ++ collect f ss) :=
  congrArg (f (.forEach targets e body) ++ ·) List.flatMap_append

theorem collect_loop : collect f (.loop e body :: ss) =
    f (.loop e body) ++ (collect f body ++ collect f ss) :=
  congrArg (f (.loop e body) ++ ·) List.flatMap_append

end

section
variable {ds : List Declaration}

theorem nestedAll_declarations : nestedAll (ds.map Declaration.stmt) = ds.map Declaration.stmt := by
  induction ds with
  | nil => rfl
  | cons d ds ih => exact congrArg (d.stmt :: ·) ih

theorem declared_declarations :
    collect declaredName (ds.map Declaration.stmt) = ds.map Declaration.name := by
  rw [collect, nestedAll_declarations, List.flatMap_map]
  exact List.flatMap_pure_eq_map _ _

/-- Declarations have nothing but their names. -/
theorem collect_declarations {f : Stmt → List String} (h : ∀ d : Declaration, f d.stmt = []) :
    collect f (ds.map Declaration.stmt) = [] := by
  rw [collect, nestedAll_declarations, List.flatMap_map]
  exact List.flatMap_eq_nil_iff.mpr fun d _ => h d

end

/-- A block without declarations declares no names. -/
theorem declared_eq_nil {ss : List Stmt} (h : ∀ s ∈ nestedAll ss, s.isDecl = false) :
    collect declaredName ss = [] := by
  refine List.flatMap_eq_nil_iff.mpr fun s hs => ?_
  have hdecl := h s hs
  cases s with
  | decl => cases hdecl
  | _ => rfl

end Stmt

namespace Recipe

/-- All statements of a conversion. -/
def statements (r : Recipe) : List Stmt := r.decls ++ r.setup

/-- The names that a conversion declares. -/
def declared (r : Recipe) : List String := Stmt.collect Stmt.declaredName r.statements

/-- The names that a conversion introduces, one for every place: it declares them, loops
over them, or assigns to them without a declaration. -/
def introductions (r : Recipe) : List String :=
  r.declared ++ Stmt.collect Stmt.loopTargets r.statements ++
    (Stmt.collect Stmt.assignedName r.statements).filter fun x => x ∉ r.declared

/-- The names that a conversion loops over when it runs. -/
def looped (r : Recipe) : List String := Stmt.collect Stmt.loopTargets r.setup

/-- The names that a conversion assigns to when it runs. -/
def assigned (r : Recipe) : List String := Stmt.collect Stmt.assignedName r.setup

section
variable {source : Expr} {r : Recipe} {ds : List Declaration}

/-- What a conversion introduces are its declarations, what it loops over and what it
assigns to otherwise. -/
theorem Scoped.introductions_eq (h : r.Scoped source ds) :
    r.introductions = ds.map Declaration.name ++ r.looped ++
      r.assigned.filter fun x => x ∉ ds.map Declaration.name := by
  have hnone : Stmt.collect Stmt.declaredName r.setup = [] := Stmt.declared_eq_nil fun s hs =>
    (Stmt.keepsAll_of_tidy r.setup (h.tidy [] []) s hs).isDecl
  have hdeclared : r.declared = ds.map Declaration.name := by
    rw [declared, statements, h.decls, Stmt.collect_append, Stmt.declared_declarations, hnone,
      List.append_nil]
  have hlooped : Stmt.collect Stmt.loopTargets r.statements = r.looped := by
    rw [statements, h.decls, Stmt.collect_append, Stmt.collect_declarations fun _ => rfl]
    rfl
  have hassigned : Stmt.collect Stmt.assignedName r.statements = r.assigned := by
    rw [statements, h.decls, Stmt.collect_append, Stmt.collect_declarations fun _ => rfl]
    rfl
  rw [introductions, hdeclared, hlooped, hassigned]

end

section
variable (p storage : String) (source : Expr) (item key value : Recipe)

theorem looped_storeItems (insertion : String) :
    (storeItems p storage insertion source item).looped = (p ++ "_item") :: item.looped := by
  rw [looped, storeItems, Stmt.collect_assign, Stmt.collect_forEach, Stmt.collect_append]
  show (p ++ "_item") :: (item.looped ++ [] ++ []) = _
  rw [List.append_nil, List.append_nil]

theorem assigned_storeItems (insertion : String) :
    (storeItems p storage insertion source item).assigned = (p ++ "_cpp") :: item.assigned := by
  rw [assigned, storeItems, Stmt.collect_assign, Stmt.collect_forEach, Stmt.collect_append]
  show (p ++ "_cpp") :: (item.assigned ++ [] ++ []) = _
  rw [List.append_nil, List.append_nil]

theorem looped_storeEntries : (storeEntries p storage source key value).looped =
    (p ++ "_key") :: (p ++ "_val") :: (key.looped ++ value.looped) := by
  rw [looped, storeEntries, Stmt.collect_assign, Stmt.collect_forEach, Stmt.collect_append,
    Stmt.collect_append]
  show (p ++ "_key") :: (p ++ "_val") :: (key.looped ++ value.looped ++ [] ++ []) = _
  rw [List.append_nil, List.append_nil]

theorem assigned_storeEntries : (storeEntries p storage source key value).assigned =
    (p ++ "_cpp") :: (key.assigned ++ value.assigned) := by
  rw [assigned, storeEntries, Stmt.collect_assign, Stmt.collect_forEach, Stmt.collect_append,
    Stmt.collect_append]
  show (p ++ "_cpp") :: (key.assigned ++ value.assigned ++ [] ++ []) = _
  rw [List.append_nil, List.append_nil]

theorem looped_walk (empty : Expr) (decls body : List Stmt) :
    (walk p storage source empty decls body).looped = Stmt.collect Stmt.loopTargets body := by
  rw [looped, walk, Stmt.collect_assign, Stmt.collect_assign, Stmt.collect_loop,
    Stmt.collect_append]
  show Stmt.collect Stmt.loopTargets body ++ [] ++ [] = _
  rw [List.append_nil, List.append_nil]

theorem assigned_walk (empty : Expr) (decls body : List Stmt) :
    (walk p storage source empty decls body).assigned =
      (p ++ "_py") :: (p ++ "_iter") :: Stmt.collect Stmt.assignedName body := by
  rw [assigned, walk, Stmt.collect_assign, Stmt.collect_assign, Stmt.collect_loop,
    Stmt.collect_append]
  show (p ++ "_py") :: (p ++ "_iter") :: (Stmt.collect Stmt.assignedName body ++ [] ++ []) = _
  rw [List.append_nil, List.append_nil]

theorem looped_loadItems (addition : String) (empty : Expr) :
    (loadItems p storage addition source empty item).looped = item.looped := by
  rw [loadItems, looped_walk, Stmt.collect_append]
  exact List.append_nil _

theorem assigned_loadItems (addition : String) (empty : Expr) :
    (loadItems p storage addition source empty item).assigned =
      (p ++ "_py") :: (p ++ "_iter") :: item.assigned := by
  rw [loadItems, assigned_walk, Stmt.collect_append]
  exact congrArg (fun xs => (p ++ "_py") :: (p ++ "_iter") :: xs) (List.append_nil _)

theorem looped_loadEntries : (loadEntries p storage source key value).looped =
    key.looped ++ value.looped := by
  rw [loadEntries, looped_walk, Stmt.collect_append, Stmt.collect_append]
  exact List.append_nil _

theorem assigned_loadEntries : (loadEntries p storage source key value).assigned =
    (p ++ "_py") :: (p ++ "_iter") :: (key.assigned ++ value.assigned) := by
  rw [loadEntries, assigned_walk, Stmt.collect_append, Stmt.collect_append]
  exact congrArg (fun xs => (p ++ "_py") :: (p ++ "_iter") :: xs) (List.append_nil _)

end

/-! ## One level of a conversion -/

/-- The loops of a conversion are over distinct names under a stem, and what it assigns to
are distinct names under the stem. -/
structure Distinct (p : String) (r : Recipe) : Prop where
  looped : DistinctUnder p r.looped
  assigned : DistinctUnder p r.assigned

variable {p storage : String} {source : Expr} {item key value : Recipe}

theorem Distinct.ofResult (e : Expr) : (Recipe.ofResult e).Distinct p :=
  ⟨below_nil.distinctUnder, below_nil.distinctUnder⟩

theorem Distinct.storeItems (h : item.Distinct (p ++ "_item")) (insertion : String) :
    (storeItems p storage insertion source item).Distinct p := by
  constructor
  case looped =>
    rw [looped_storeItems]
    exact (h.looped.below item_isSuffix).cons item_isSuffix
  case assigned =>
    rw [assigned_storeItems]
    exact (h.assigned.below item_isSuffix).cons cpp_isSuffix

theorem Distinct.storeEntries (hk : key.Distinct (p ++ "_key"))
    (hv : value.Distinct (p ++ "_val")) :
    (storeEntries p storage source key value).Distinct p := by
  constructor
  case looped =>
    rw [looped_storeEntries]
    have hbelow := hk.looped.below_append hv.looped key_isSuffix val_isSuffix (by decide)
    exact hbelow.cons_cons key_isSuffix val_isSuffix (by decide)
  case assigned =>
    rw [assigned_storeEntries]
    have hbelow := hk.assigned.below_append hv.assigned key_isSuffix val_isSuffix (by decide)
    exact hbelow.cons cpp_isSuffix

theorem Distinct.loadItems (h : item.Distinct (p ++ "_iter")) (addition : String) (empty : Expr) :
    (loadItems p storage addition source empty item).Distinct p := by
  constructor
  case looped =>
    rw [looped_loadItems]
    exact (h.looped.below iter_isSuffix).distinctUnder
  case assigned =>
    rw [assigned_loadItems]
    exact (h.assigned.below iter_isSuffix).cons_cons py_isSuffix iter_isSuffix (by decide)

theorem Distinct.loadEntries (hk : key.Distinct (p ++ "_iter" ++ "_first"))
    (hv : value.Distinct (p ++ "_iter" ++ "_second")) :
    (loadEntries p storage source key value).Distinct p := by
  constructor
  case looped =>
    rw [looped_loadEntries]
    have hbelow := hk.looped.below_append hv.looped first_isSuffix second_isSuffix (by decide)
    exact (hbelow.distinctUnder.below iter_isSuffix).distinctUnder
  case assigned =>
    rw [assigned_loadEntries]
    have hbelow := hk.assigned.below_append hv.assigned first_isSuffix second_isSuffix (by decide)
    exact (hbelow.distinctUnder.below iter_isSuffix).cons_cons py_isSuffix iter_isSuffix
      (by decide)

end Recipe

end Code

namespace Catalog

variable {source : Expr} {t : ElementType} {r : Recipe}

theorem toStorage_primitive_distinct {p : Primitive}
    (h : builtin.toStorage source (.primitive p) = .ok r) : r.Distinct source.stem := by
  by_cases hs : p = .str
  · subst hs
    cases h.symm.trans (toStorage_str source)
    have hbytes : DistinctUnder source.stem [source.stem ++ "_" ++ "bytes"] :=
      ⟨List.nodup_cons.mpr ⟨List.not_mem_nil, List.nodup_nil⟩,
        List.forall_mem_singleton.mpr (extends_of_word _ (by decide))⟩
    exact ⟨below_nil.distinctUnder, hbytes⟩
  · by_cases hc : p = .complex128
    · subst hc
      cases h.symm.trans (toStorage_complex source)
      exact ⟨below_nil.distinctUnder, below_nil.distinctUnder⟩
    · obtain ⟨type, -, h'⟩ := toStorage_cast source hs hc
      cases h.symm.trans h'
      exact .ofResult _

/-- No primitive needs a statement on its way out of storage. -/
theorem toHost_primitive_distinct {p : Primitive}
    (h : builtin.toHost source (.primitive p) = .ok r) : r.Distinct source.stem := by
  by_cases hs : p = .str
  · subst hs
    cases h.symm.trans (toHost_str source)
    exact .ofResult _
  · by_cases hc : p = .complex128
    · subst hc
      cases h.symm.trans (toHost_complex source)
      exact .ofResult _
    · cases h.symm.trans (toHost_call source hs hc)
      exact .ofResult _

theorem toStorage_distinct (h : builtin.toStorage source t = .ok r) : r.Distinct source.stem := by
  refine toStorage_induction (P := fun source r => r.Distinct source.stem)
    toStorage_primitive_distinct ?_ ?_ h
  · rintro source t storage item - - hitem insertion -
    rw [stem_name_suffix (isStem_stem_expr source) item_isSuffix] at hitem
    exact hitem.storeItems insertion
  · rintro source t storage key value - - hkey hvalue
    rw [stem_name_suffix (isStem_stem_expr source) key_isSuffix] at hkey
    rw [stem_name_suffix (isStem_stem_expr source) val_isSuffix] at hvalue
    exact hkey.storeEntries hvalue

theorem stem_itemAt (source : Expr) : (itemAt source).stem = source.stem ++ "_iter" :=
  stem_name_suffix (isStem_stem_expr source) iter_isSuffix

theorem toHost_distinct (h : builtin.toHost source t = .ok r) : r.Distinct source.stem := by
  refine toHost_induction (P := fun source r => r.Distinct source.stem)
    toHost_primitive_distinct ?_ ?_ h
  · rintro source t storage item - hitem filler -
    rw [stem_itemAt] at hitem
    exact hitem.loadItems filler.1 filler.2
  · rintro source t storage key value - hkey hvalue
    rw [itemAt, stem_first (isStem_stem_expr source)] at hkey
    rw [itemAt, stem_second (isStem_stem_expr source)] at hvalue
    exact hkey.loadEntries hvalue

end Catalog

/-! ## Fresh names -/

namespace Code

/-- The expression selects from the value of a name: it follows references and takes
fields. -/
inductive Expr.SelectsFrom (x : String) : Expr → Prop
  | name : SelectsFrom x (.name x)
  | deref {e : Expr} (h : SelectsFrom x e) : SelectsFrom x (.deref e)
  | attr {e : Expr} (h : SelectsFrom x e) (field : String) : SelectsFrom x (.attr e field)

/-- The stem of what is selected from a name is the stem of the name or extends it. -/
theorem Expr.SelectsFrom.stem {x : String} {e : Expr} (h : e.SelectsFrom x) :
    e.stem = Text.stem x ∨ Extends (Text.stem x) e.stem := by
  induction h with
  | name => exact Or.inl rfl
  | deref _ ih => exact ih
  | @attr e _ field ih =>
    have hfield : Extends e.stem (e.attr field).stem := ⟨_, isStem_stem field, rfl⟩
    rcases ih with h | h
    · exact Or.inr (h ▸ hfield)
    · exact Or.inr (h.trans hfield)

/-- No name that extends the stem of a selection is the name it starts from. -/
theorem Expr.SelectsFrom.not_extends {x : String} {e : Expr} (h : e.SelectsFrom x) :
    ¬ Extends e.stem x := by
  intro hx
  rcases h.stem with hstem | hstem
  · exact not_extends_stem x (hstem ▸ hx)
  · exact not_extends_stem x (hstem.trans hx)

/-- A conversion of what is selected from a name declares names and nothing else, and
before it runs. No two places introduce the same name, every name extends the stem of
the source, and the source does not start from any. -/
structure Recipe.Fresh (source : Expr) (root : String) (r : Recipe) : Prop where
  decls : ∀ s ∈ r.decls, ∃ type x, s = .decl type (.name x)
  setup : ∀ s ∈ Stmt.nestedAll r.setup, s.isDecl = false
  nodup : r.introductions.Nodup
  extend : ∀ x ∈ r.introductions, Extends source.stem x
  root : root ∉ r.introductions

/-- What a conversion loops over differs by its end from what it declares or assigns to,
and the assignments that remain are to names without a declaration. -/
theorem Recipe.Scoped.fresh {source : Expr} {x : String} {r : Recipe} {ds : List Declaration}
    (h : r.Scoped source ds) (hd : r.Distinct source.stem) (hs : source.SelectsFrom x) :
    r.Fresh source x := by
  have hkeeps := Stmt.keepsAll_of_tidy r.setup (h.tidy [] [])
  have hloop : ∀ y ∈ r.looped, IsLoopName y := by
    intro y hy
    obtain ⟨s, hs, hy⟩ := List.mem_flatMap.mp hy
    exact ((hkeeps s hs).loopTargets y hy).resolve_right List.not_mem_nil
  have hassign : ∀ y ∈ r.assigned, IsTemporary y := by
    intro y hy
    obtain ⟨s, hs, hy⟩ := List.mem_flatMap.mp hy
    exact ((hkeeps s hs).assignedName y hy).resolve_right List.not_mem_nil
  have hextend : ∀ y ∈ r.introductions, Extends source.stem y := by
    rw [h.introductions_eq]
    refine List.forall_mem_append.mpr ⟨List.forall_mem_append.mpr
      ⟨List.forall_mem_map.mpr h.extend, hd.looped.extend⟩, fun y hy => ?_⟩
    exact hd.assigned.extend y (List.mem_of_mem_filter hy)
  constructor
  case decls =>
    rw [h.decls]
    exact List.forall_mem_map.mpr fun d _ => ⟨_, _, rfl⟩
  case setup => exact fun s hs => (hkeeps s hs).isDecl
  case nodup =>
    rw [h.introductions_eq, List.append_assoc]
    refine List.nodup_append.mpr ⟨h.nodup, List.nodup_append.mpr
      ⟨hd.looped.nodup, hd.assigned.nodup.filter _, ?_⟩, ?_⟩
    · rintro y hy _ hm rfl
      exact (hassign y (List.mem_of_mem_filter hm)).not_isLoopName (hloop y hy)
    · rintro y hy _ hm rfl
      rcases List.mem_append.mp hm with hm | hm
      · obtain ⟨d, hd, rfl⟩ := List.mem_map.mp hy
        exact (h.temporary d hd).not_isLoopName (hloop _ hm)
      · exact of_decide_eq_true (List.mem_filter.mp hm).2 hy
  case extend => exact hextend
  case root => exact fun hm => hs.not_extends (hextend x hm)

end Code

namespace Catalog

/-- The code of every type introduces fresh names, in both directions. -/
theorem introductions_fresh {source : Expr} {x : String} (h : source.SelectsFrom x)
    (t : ElementType) :
    (∃ r, builtin.toStorage source t = .ok r ∧ r.Fresh source x) ∧
      ∃ r, builtin.toHost source t = .ok r ∧ r.Fresh source x := by
  obtain ⟨r, hr, -⟩ := toStorage_builtin t source
  obtain ⟨s, hs, -⟩ := toHost_builtin t source
  obtain ⟨ds, hds⟩ := toStorage_scoped hr
  obtain ⟨es, hes⟩ := toHost_scoped hs
  exact ⟨⟨r, hr, hds.fresh (toStorage_distinct hr) h⟩, s, hs, hes.fresh (toHost_distinct hs) h⟩

theorem introductions_fresh_nested :
    (Expr.attr (.deref (.name "inow")) "first").SelectsFrom "inow" ∧
      (∃ r, builtin.toStorage (.attr (.deref (.name "inow")) "first")
          (.map (.set (.primitive .str)) (.vector (.primitive .complex128))) = .ok r ∧
        r.Fresh (.attr (.deref (.name "inow")) "first") "inow") ∧
      ∃ r, builtin.toHost (.attr (.deref (.name "inow")) "first")
          (.map (.set (.primitive .str)) (.vector (.primitive .complex128))) = .ok r ∧
        r.Fresh (.attr (.deref (.name "inow")) "first") "inow" :=
  have hs : (Expr.attr (.deref (.name "inow")) "first").SelectsFrom "inow" :=
    .attr (.deref .name) "first"
  ⟨hs, introductions_fresh hs _⟩

/-- The names of a map of lists of texts. -/
example : (builtin.toStorage (.name "m")
      (.map (.primitive .int32) (.vector (.primitive .str)))).toOption.map Recipe.introductions =
    some ["m_cpp", "m_val_cpp", "m_val_item_bytes", "m_key", "m_val", "m_val_item"] := by
  decide +kernel

end Catalog

end WrapGen
