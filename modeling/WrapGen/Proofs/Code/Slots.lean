import WrapGen.Code.Item
import WrapGen.Proofs.Conversion.Induction

/-!
# Slots are filled when a recipe is bound

A recipe of a catalog may hold slots anywhere: the value to convert, and
temporaries. `slotFree` looks for one at every depth of an expression, of a
statement, of the functions and classes of a fragment.

Binding replaces expressions from the root downwards, so the proof goes through
every form of expression and statement once (`Expr.slotFree_replace`,
`Stmt.slotFree_replace`). A conversion of any nesting is put together from bound
recipes.

* `slotFree_bind`: a recipe that is bound to a value has no slot left.
* `slotFree_toStorage`, `slotFree_toHost`: no conversion has a slot, whatever
  recipes the catalog has.
-/
namespace WrapGen

namespace Code

/-! ## Code without slots -/

namespace Expr

mutual

/-- Whether no slot is in an expression. -/
@[simp] def slotFree : Expr → Bool
  | .hole => false
  | .scratch _ => false
  | .name _ => true
  | .literal _ => true
  | .attr e _ => e.slotFree
  | .call e args => e.slotFree && slotFreeAll args
  | .index e i => e.slotFree && i.slotFree
  | .cast _ e => e.slotFree
  | .deref e => e.slotFree
  | .inc e => e.slotFree
  | .binary _ a b => a.slotFree && b.slotFree
  | .not e => e.slotFree
  | .isInstance e _ => e.slotFree
  | .hasAttr e _ => e.slotFree
  | .construct _ args => slotFreeAll args
  | .alloc _ => true
  | .list items => slotFreeAll items
  | .dict pairs => slotFreePairs pairs
termination_by structural e => e

/-- Whether no slot is in the expressions of a list. -/
@[simp] def slotFreeAll : List Expr → Bool
  | [] => true
  | e :: es => e.slotFree && slotFreeAll es
termination_by structural es => es

/-- Whether no slot is in the pairs of a list. -/
@[simp] def slotFreePairs : List (Expr × Expr) → Bool
  | [] => true
  | (k, v) :: ps => k.slotFree && v.slotFree && slotFreePairs ps
termination_by structural ps => ps

end

end Expr

namespace Stmt

mutual

/-- Whether no slot is in a statement. -/
@[simp] def slotFree : Stmt → Bool
  | .decl _ target => target.slotFree
  | .assign target value => target.slotFree && value.slotFree
  | .expr e => e.slotFree
  | .branch arms otherwise => slotFreeArms arms && slotFreeOption otherwise
  | .forEach _ source body => source.slotFree && slotFreeAll body
  | .loop condition body => condition.slotFree && slotFreeAll body
  | .ret value => value.all Expr.slotFree
  | .raise e => e.slotFree
  | .attempt body _ handler => slotFreeAll body && slotFreeAll handler
  | .delete e => e.slotFree
  | .comment _ => true
  | .blank => true
termination_by structural s => s

/-- Whether no slot is in the statements of a block. -/
@[simp] def slotFreeAll : List Stmt → Bool
  | [] => true
  | s :: ss => s.slotFree && slotFreeAll ss
termination_by structural ss => ss

/-- Whether no slot is in conditions and their blocks. -/
@[simp] def slotFreeArms : List (Expr × List Stmt) → Bool
  | [] => true
  | (condition, body) :: arms => condition.slotFree && slotFreeAll body && slotFreeArms arms
termination_by structural arms => arms

/-- Whether no slot is in a block that may be absent. -/
@[simp] def slotFreeOption : Option (List Stmt) → Bool
  | none => true
  | some body => slotFreeAll body
termination_by structural body => body

end

end Stmt

section
variable (e : Expr) (s : String) (args : List Expr) (body otherwise : List Stmt)

@[simp] theorem Expr.slotFree_method :
    (e.method s args).slotFree = (e.slotFree && slotFreeAll args) := rfl

@[simp] theorem Expr.slotFree_callName : (callName s args).slotFree = slotFreeAll args := rfl

@[simp] theorem Expr.slotFree_int (n : Int) : (int n).slotFree = true := rfl

@[simp] theorem Expr.slotFree_bool (b : Bool) : (bool b).slotFree = true := rfl

@[simp] theorem Expr.slotFree_none : Expr.none.slotFree = true := rfl

@[simp] theorem Stmt.slotFree_call : (call s args).slotFree = Expr.slotFreeAll args := rfl

@[simp] theorem Stmt.slotFree_give : (give e).slotFree = e.slotFree := rfl

@[simp] theorem Stmt.slotFree_when :
    (when e body).slotFree = (e.slotFree && slotFreeAll body) := by
  simp [when]

@[simp] theorem Stmt.slotFree_ifElse : (ifElse e body otherwise).slotFree =
    (e.slotFree && slotFreeAll body && slotFreeAll otherwise) := by
  simp [ifElse]

end

/-- Whether no slot is in the three parts of a conversion. -/
def Recipe.slotFree (r : Recipe) : Bool :=
  Stmt.slotFreeAll r.decls && Stmt.slotFreeAll r.setup && r.result.slotFree

/-- Whether no slot is in the defaults of the parameters or in the body. -/
def Function.slotFree (f : Function) : Bool :=
  f.params.all (fun p => p.default.all Expr.slotFree) && f.body.all Stmt.slotFreeAll

/-- Whether no slot is in the methods. -/
def ClassDef.slotFree (c : ClassDef) : Bool := c.methods.all Function.slotFree

/-- Whether no slot is in an item. -/
def Item.slotFree : Item → Bool
  | comment _ => true
  | classDef c => c.slotFree
  | function f => f.slotFree

/-- Whether no slot is in a fragment. -/
def Fragment.slotFree (f : Fragment) : Bool := f.all Item.slotFree

/-! ## Replacement -/

/-- A replacement gives something for every slot, and nothing that has a slot. -/
structure FillsSlots (f : Expr → Option Expr) : Prop where
  slotFree : ∀ e e', f e = some e' → e'.slotFree = true
  hole : (f .hole).isSome = true
  scratch : ∀ suffix, (f (.scratch suffix)).isSome = true

variable {f : Expr → Option Expr}

/-- What is put in has no slot; so nothing has one if what stays has none. -/
theorem FillsSlots.getD (hf : FillsSlots f) {e d : Expr} (hd : d.slotFree = true) :
    ((f e).getD d).slotFree = true := by
  cases h : f e with
  | none => exact hd
  | some e' => exact hf.slotFree e e' h

/-- In place of a slot there is something. -/
theorem FillsSlots.getD_slot (hf : FillsSlots f) {e : Expr} (he : (f e).isSome = true) (d : Expr) :
    ((f e).getD d).slotFree = true := by
  obtain ⟨e', he⟩ := Option.isSome_iff_exists.mp he
  rw [he]
  exact hf.slotFree e e' he

namespace Expr

mutual

/-- A replacement that fills the slots leaves none. -/
theorem slotFree_replace (hf : FillsSlots f) : ∀ e : Expr, (e.replace f).slotFree = true
  | .hole => hf.getD_slot hf.hole _
  | .scratch s => hf.getD_slot (hf.scratch s) _
  | .name _ | .literal _ | .alloc _ => hf.getD rfl
  | .attr e _ | .cast _ e | .deref e | .inc e | .not e | .isInstance e _ | .hasAttr e _ =>
    hf.getD (slotFree_replace hf e)
  | .index a b | .binary _ a b => hf.getD <| by
    rw [slotFree, slotFree_replace hf a, slotFree_replace hf b]
    rfl
  | .call e args => hf.getD <| by
    rw [slotFree, slotFree_replace hf e, slotFreeAll_replaceAll hf args]
    rfl
  | .construct _ args | .list args => hf.getD (slotFreeAll_replaceAll hf args)
  | .dict pairs => hf.getD (slotFreePairs_replacePairs hf pairs)

theorem slotFreeAll_replaceAll (hf : FillsSlots f) : ∀ es : List Expr,
    slotFreeAll (replaceAll f es) = true
  | [] => rfl
  | e :: es => by
    rw [replaceAll, slotFreeAll, slotFree_replace hf e, slotFreeAll_replaceAll hf es]
    rfl

theorem slotFreePairs_replacePairs (hf : FillsSlots f) : ∀ ps : List (Expr × Expr),
    slotFreePairs (replacePairs f ps) = true
  | [] => rfl
  | (k, v) :: ps => by
    rw [replacePairs, slotFreePairs, slotFree_replace hf k, slotFree_replace hf v,
      slotFreePairs_replacePairs hf ps]
    rfl

end

end Expr

namespace Stmt

mutual

/-- In all expressions of a statement it leaves none either. -/
theorem slotFree_replace (hf : FillsSlots f) : ∀ s : Stmt, (s.replace f).slotFree = true
  | .decl _ e | .expr e | .raise e | .delete e => e.slotFree_replace hf
  | .assign target value => by
    rw [replace, slotFree, target.slotFree_replace hf, value.slotFree_replace hf]
    rfl
  | .branch arms otherwise => by
    rw [replace, slotFree, slotFreeArms_replaceArms hf arms,
      slotFreeOption_replaceOption hf otherwise]
    rfl
  | .forEach _ e body | .loop e body => by
    rw [replace, slotFree, e.slotFree_replace hf, slotFreeAll_replaceAll hf body]
    rfl
  | .ret none | .comment _ | .blank => rfl
  | .ret (some value) => value.slotFree_replace hf
  | .attempt body _ handler => by
    rw [replace, slotFree, slotFreeAll_replaceAll hf body, slotFreeAll_replaceAll hf handler]
    rfl

theorem slotFreeAll_replaceAll (hf : FillsSlots f) : ∀ ss : List Stmt,
    slotFreeAll (replaceAll f ss) = true
  | [] => rfl
  | s :: ss => by
    rw [replaceAll, slotFreeAll, slotFree_replace hf s, slotFreeAll_replaceAll hf ss]
    rfl

theorem slotFreeArms_replaceArms (hf : FillsSlots f) : ∀ arms : List (Expr × List Stmt),
    slotFreeArms (replaceArms f arms) = true
  | [] => rfl
  | (condition, body) :: arms => by
    rw [replaceArms, slotFreeArms, condition.slotFree_replace hf, slotFreeAll_replaceAll hf body,
      slotFreeArms_replaceArms hf arms]
    rfl

theorem slotFreeOption_replaceOption (hf : FillsSlots f) : ∀ body : Option (List Stmt),
    slotFreeOption (replaceOption f body) = true
  | none => rfl
  | some body => slotFreeAll_replaceAll hf body

end

@[simp] theorem slotFreeAll_append : ∀ ss ts : List Stmt,
    slotFreeAll (ss ++ ts) = (slotFreeAll ss && slotFreeAll ts)
  | [], _ => rfl
  | s :: ss, ts => by
    rw [List.cons_append, slotFreeAll, slotFreeAll, slotFreeAll_append ss ts, Bool.and_assoc]

@[simp] theorem slotFreeArms_append : ∀ arms others : List (Expr × List Stmt),
    slotFreeArms (arms ++ others) = (slotFreeArms arms && slotFreeArms others)
  | [], _ => rfl
  | (condition, body) :: arms, others => by
    simp [slotFreeArms_append arms others, Bool.and_assoc]

end Stmt

/-! ## Recipes -/

namespace Recipe

theorem slotFree_iff {r : Recipe} : r.slotFree = true ↔ Stmt.slotFreeAll r.decls = true ∧
    Stmt.slotFreeAll r.setup = true ∧ r.result.slotFree = true := by
  rw [slotFree, Bool.and_eq_true, Bool.and_eq_true, and_assoc]

/-- What stands for the slots of a recipe fills them. -/
theorem fillsSlots_slotValue {source : Expr} (hs : source.slotFree = true) (stem : String) :
    FillsSlots (slotValue source stem) where
  slotFree e e' h := by
    cases e <;> cases h
    · exact hs
    · rfl
  hole := rfl
  scratch _ := rfl

/-- A recipe that is bound to a value has no slot left. -/
theorem slotFree_bind (r : Recipe) {source : Expr} (hs : source.slotFree = true) (stem : String) :
    (r.bind source stem).slotFree = true := by
  have hf := fillsSlots_slotValue hs stem
  exact slotFree_iff.mpr ⟨Stmt.slotFreeAll_replaceAll hf _, Stmt.slotFreeAll_replaceAll hf _,
    Expr.slotFree_replace hf _⟩

section
variable {source : Expr} {item key value : Recipe}

theorem slotFree_storeItems (stem storage insertion : String) (hs : source.slotFree = true)
    (hi : item.slotFree = true) :
    (storeItems stem storage insertion source item).slotFree = true := by
  obtain ⟨hd, hb, hr⟩ := slotFree_iff.mp hi
  simp [slotFree, storeItems, hs, hd, hb, hr]

theorem slotFree_storeEntries (stem storage : String) (hs : source.slotFree = true)
    (hk : key.slotFree = true) (hv : value.slotFree = true) :
    (storeEntries stem storage source key value).slotFree = true := by
  obtain ⟨hkd, hkb, hkr⟩ := slotFree_iff.mp hk
  obtain ⟨hvd, hvb, hvr⟩ := slotFree_iff.mp hv
  simp [slotFree, storeEntries, hs, hkd, hkb, hkr, hvd, hvb, hvr]

theorem slotFree_loadItems (stem storage addition : String) {empty : Expr}
    (hs : source.slotFree = true) (he : empty.slotFree = true) (hi : item.slotFree = true) :
    (loadItems stem storage addition source empty item).slotFree = true := by
  obtain ⟨hd, hb, hr⟩ := slotFree_iff.mp hi
  simp [slotFree, loadItems, walk, hs, he, hd, hb, hr]

theorem slotFree_loadEntries (stem storage : String) (hs : source.slotFree = true)
    (hk : key.slotFree = true) (hv : value.slotFree = true) :
    (loadEntries stem storage source key value).slotFree = true := by
  obtain ⟨hkd, hkb, hkr⟩ := slotFree_iff.mp hk
  obtain ⟨hvd, hvb, hvr⟩ := slotFree_iff.mp hv
  simp [slotFree, loadEntries, walk, hs, hkd, hkb, hkr, hvd, hvb, hvr]

end

end Recipe

end Code

/-! ## Conversions -/

namespace Catalog

open Code

variable {c : Catalog}

theorem slotFree_toStorage {t : ElementType} {source : Expr} {r : Recipe}
    (hs : source.slotFree = true) (h : c.toStorage source t = .ok r) : r.slotFree = true := by
  refine toStorage_induction (P := fun source r => source.slotFree = true → r.slotFree = true)
    ?_ ?_ ?_ h hs
  · intro source p r h hs
    obtain ⟨entry, -, h⟩ := bind_eq_ok h
    cases h
    exact entry.toStorage.slotFree_bind hs _
  · exact fun _ _ ih _ _ hs => Recipe.slotFree_storeItems _ _ _ hs (ih rfl)
  · exact fun _ _ ihk ihv hs => Recipe.slotFree_storeEntries _ _ hs (ihk rfl) (ihv rfl)

theorem slotFree_toHost {t : ElementType} {source : Expr} {r : Recipe}
    (hs : source.slotFree = true) (h : c.toHost source t = .ok r) : r.slotFree = true := by
  refine toHost_induction (P := fun source r => source.slotFree = true → r.slotFree = true)
    ?_ ?_ ?_ h hs
  · intro source p r h hs
    obtain ⟨entry, -, h⟩ := bind_eq_ok h
    cases h
    exact entry.toHost.slotFree_bind hs _
  · intro source t storage item _ ih filler hfiller hs
    have hempty : ∀ f ∈ fillers, f.2.slotFree = true := by decide
    exact Recipe.slotFree_loadItems _ _ _ hs (hempty filler hfiller) (ih rfl)
  · exact fun _ ihk ihv hs => Recipe.slotFree_loadEntries _ _ hs (ihk rfl) (ihv rfl)

end Catalog

end WrapGen
