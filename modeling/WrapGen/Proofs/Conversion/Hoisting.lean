import WrapGen.Proofs.Conversion.Introduced

/-!
# Declarations come first

A recipe lists its declarations apart from the statements that run. Where the recipes
of a catalog keep to that, at every depth, so do the conversions that are made of them:
a loop lists its own declaration and those of its body, and its body is left with none.

* `Catalog.toStorage_hoisted`: the declarations of a conversion to storage are listed,
  whatever the type.
-/
namespace WrapGen

namespace Code

namespace Stmt

variable (f : Expr → Option Expr)

theorem isDecl_replace (s : Stmt) : (s.replace f).isDecl = s.isDecl := by
  cases s <;> rfl

theorem replaceAll_eq_map (ss : List Stmt) : replaceAll f ss = ss.map (replace f) := by
  induction ss with
  | nil => rfl
  | cons s ss ih => rw [replaceAll, ih, List.map_cons]

mutual

/-- Replacement keeps the shape of a statement. -/
theorem nested_replace : ∀ s : Stmt, (s.replace f).nested = s.nested.map (replace f)
  | .decl _ _ | .assign _ _ | .expr _ | .ret _ | .raise _ | .delete _ | .comment _ | .blank => rfl
  | .branch arms otherwise => by
    rw [replace, nested, nested, nestedArms_replaceArms arms, nestedOption_replaceOption otherwise,
      List.map_cons, List.map_append, replace]
  | .forEach _ _ body | .loop _ body => by
    rw [replace, nested, nested, nestedAll_replaceAll body, List.map_cons, replace]
  | .attempt body _ handler => by
    rw [replace, nested, nested, nestedAll_replaceAll body, nestedAll_replaceAll handler,
      List.map_cons, List.map_append, replace]
termination_by structural s => s

theorem nestedAll_replaceAll : ∀ ss : List Stmt,
    nestedAll (replaceAll f ss) = (nestedAll ss).map (replace f)
  | [] => rfl
  | s :: ss => by
    rw [replaceAll, nestedAll, nestedAll, nested_replace s, nestedAll_replaceAll ss,
      List.map_append]
termination_by structural ss => ss

theorem nestedArms_replaceArms : ∀ arms : List (Expr × List Stmt),
    nestedArms (replaceArms f arms) = (nestedArms arms).map (replace f)
  | [] => rfl
  | (_, body) :: arms => by
    rw [replaceArms, nestedArms, nestedArms, nestedAll_replaceAll body,
      nestedArms_replaceArms arms, List.map_append]
termination_by structural arms => arms

theorem nestedOption_replaceOption : ∀ body : Option (List Stmt),
    nestedOption (replaceOption f body) = (nestedOption body).map (replace f)
  | none => rfl
  | some body => nestedAll_replaceAll body
termination_by structural body => body

end

theorem nestedAll_flatMap {α : Type} (f : α → List Stmt) (xs : List α) :
    nestedAll (xs.flatMap f) = xs.flatMap fun x => nestedAll (f x) := by
  induction xs with
  | nil => rfl
  | cons x xs ih => rw [List.flatMap_cons, nestedAll_append, ih, List.flatMap_cons]

end Stmt

namespace Recipe

/-- What a recipe declares is listed, and nothing is declared when it runs. -/
structure Hoisted (r : Recipe) : Prop where
  decls : ∀ s ∈ r.decls, s.isDecl = true
  setup : ∀ s ∈ Stmt.nestedAll r.setup, s.isDecl = false

variable {r item key value : Recipe}

theorem Hoisted.bind (h : r.Hoisted) (source : Expr) (stem : String) :
    (r.bind source stem).Hoisted := by
  constructor
  · show ∀ s ∈ Stmt.replaceAll _ r.decls, s.isDecl = true
    rw [Stmt.replaceAll_eq_map]
    exact List.forall_mem_map.mpr fun s hs => (s.isDecl_replace _).trans (h.decls s hs)
  · show ∀ s ∈ Stmt.nestedAll (Stmt.replaceAll _ r.setup), s.isDecl = false
    rw [Stmt.nestedAll_replaceAll]
    exact List.forall_mem_map.mpr fun s hs => (s.isDecl_replace _).trans (h.setup s hs)

/-- A loop that fills a container declares nothing if its body does not. -/
theorem not_isDecl_fill {start : Stmt} {targets : List String} {source : Expr}
    {body : List Stmt} {last : Stmt} (hstart : ∀ s ∈ start.nested, s.isDecl = false)
    (hbody : ∀ s ∈ Stmt.nestedAll body, s.isDecl = false)
    (hlast : ∀ s ∈ last.nested, s.isDecl = false) :
    ∀ s ∈ Stmt.nestedAll [start, .forEach targets source (body ++ [last])], s.isDecl = false := by
  have hnested : Stmt.nestedAll [start, .forEach targets source (body ++ [last])] =
      start.nested ++ .forEach targets source (body ++ [last]) ::
        (Stmt.nestedAll body ++ last.nested) := by
    simp only [Stmt.nestedAll, Stmt.nested, Stmt.nestedAll_append, List.append_nil]
  rw [hnested]
  exact List.forall_mem_append.mpr
    ⟨hstart, List.forall_mem_cons.mpr ⟨rfl, List.forall_mem_append.mpr ⟨hbody, hlast⟩⟩⟩

theorem Hoisted.storeItems (h : item.Hoisted) (stem storage insertion : String)
    (source : Expr) : (Recipe.storeItems stem storage insertion source item).Hoisted where
  decls := List.forall_mem_cons.mpr ⟨rfl, h.decls⟩
  setup := not_isDecl_fill (List.forall_mem_singleton.mpr rfl) h.setup
    (List.forall_mem_singleton.mpr rfl)

theorem Hoisted.storeEntries (hk : key.Hoisted) (hv : value.Hoisted) (stem storage : String)
    (source : Expr) : (Recipe.storeEntries stem storage source key value).Hoisted where
  decls := List.forall_mem_cons.mpr ⟨rfl, List.forall_mem_append.mpr ⟨hk.decls, hv.decls⟩⟩
  setup := by
    have hbody : ∀ s ∈ Stmt.nestedAll (key.setup ++ value.setup), s.isDecl = false := by
      rw [Stmt.nestedAll_append]
      exact List.forall_mem_append.mpr ⟨hk.setup, hv.setup⟩
    exact not_isDecl_fill (List.forall_mem_singleton.mpr rfl) hbody
      (List.forall_mem_singleton.mpr rfl)

end Recipe

end Code

namespace Catalog

/-- The recipes to storage list what they declare. -/
def Hoists (c : Catalog) : Prop := ∀ p e, c.entry p = .ok e → e.toStorage.Hoisted

theorem hoists_builtin : builtin.Hoists := by
  intro p e h
  cases p <;> cases h <;> constructor <;> decide

variable {c : Catalog}

theorem toStorage_hoisted (hc : c.Hoists) {t : ElementType} {source : Code.Expr} {r : Code.Recipe}
    (h : c.toStorage source t = .ok r) : r.Hoisted := by
  refine toStorage_induction (P := fun _ r => r.Hoisted) (fun h => ?_)
    (fun _ _ hi insertion _ => hi.storeItems _ _ insertion _)
    (fun _ _ hk hv => hk.storeEntries hv _ _ _) h
  obtain ⟨e, he, h⟩ := bind_eq_ok h
  cases h
  exact (hc _ e he).bind _ _

end Catalog

end WrapGen
