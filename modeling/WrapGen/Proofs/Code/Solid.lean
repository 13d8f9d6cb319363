import WrapGen.Code.Item
import WrapGen.Conversion
import WrapGen.Proofs.Code.OneLine

/-!
# Code whose lines stay whole

`Stmt.solid` asks for expressions that keep to their line and for blocks that have
code in them; `Function.solid`, `ClassDef.solid` and `Item.solid` ask the same of
what they are made of. Parts may be replaced by others of this kind, and so a recipe
that is bound to a value is solid if the recipe and the value are.

* `Expr.solid_replace`, `Stmt.solid_replace`: code stays solid when solid parts are
  put in.
-/
namespace WrapGen.Code

open Text

/-! ## Statements -/

namespace Stmt

/-- Whether a statement has a line that is no comment. -/
def hasCode : Stmt → Bool
  | .branch arms otherwise => !arms.isEmpty || otherwise.isSome
  | .comment _ | .blank => false
  | _ => true

/-- Whether a statement of a list has such a line. -/
@[simp] def anyCode : List Stmt → Bool
  | [] => false
  | s :: ss => s.hasCode || anyCode ss

/-- Whether a block has such a line; an empty one does nothing, but says so. -/
@[simp] def filled (ss : List Stmt) : Bool := ss.isEmpty || anyCode ss

mutual

/-- Whether the lines of a statement stay whole and its blocks have code in them. -/
@[simp] def solid : Stmt → Bool
  | .decl t target => isPlain t && target.solid
  | .assign target value => target.leads && target.solid && value.solid
  | .expr e => e.leads && e.solid
  | .branch arms otherwise => solidArms arms && solidOption otherwise
  | .forEach targets source body =>
    targets.all isPlain && source.solid && (solidAll body && filled body)
  | .loop condition body => condition.solid && (solidAll body && filled body)
  | .ret value => value.all Expr.solid
  | .raise e => e.solid
  | .attempt body exception handler =>
    isPlain exception && (solidAll body && filled body) && (solidAll handler && filled handler)
  | .delete e => e.solid
  | .comment t => isSafe t
  | .blank => true
termination_by structural s => s

/-- Whether all statements of a block are solid. -/
@[simp] def solidAll : List Stmt → Bool
  | [] => true
  | s :: ss => s.solid && solidAll ss
termination_by structural ss => ss

/-- Whether conditions are solid and their blocks have code in them. -/
@[simp] def solidArms : List (Expr × List Stmt) → Bool
  | [] => true
  | (condition, body) :: arms =>
    condition.solid && (solidAll body && filled body) && solidArms arms
termination_by structural arms => arms

/-- Whether a block that may be absent has code in it. -/
@[simp] def solidOption : Option (List Stmt) → Bool
  | none => true
  | some body => solidAll body && filled body
termination_by structural body => body

end

@[simp] theorem solidAll_append : ∀ ss ts : List Stmt,
    solidAll (ss ++ ts) = (solidAll ss && solidAll ts)
  | [], _ => rfl
  | s :: ss, ts => by
    rw [List.cons_append, solidAll, solidAll, solidAll_append ss ts, Bool.and_assoc]

@[simp] theorem anyCode_append : ∀ ss ts : List Stmt,
    anyCode (ss ++ ts) = (anyCode ss || anyCode ts)
  | [], _ => rfl
  | s :: ss, ts => by
    rw [List.cons_append, anyCode, anyCode, anyCode_append ss ts, Bool.or_assoc]

@[simp] theorem solidArms_append : ∀ arms others : List (Expr × List Stmt),
    solidArms (arms ++ others) = (solidArms arms && solidArms others)
  | [], _ => rfl
  | (condition, body) :: arms, others => by
    simp [solidArms_append arms others, Bool.and_assoc]

section
variable (e : Expr) (body otherwise : List Stmt)

@[simp] theorem solid_give : (give e).solid = e.solid := rfl

@[simp] theorem solid_call (function : String) (args : List Expr) :
    (call function args).solid =
      (isLeading function && (isPlain function && Expr.solidAll args)) := rfl

@[simp] theorem solid_when :
    (when e body).solid = (e.solid && (solidAll body && filled body)) := by
  simp [when]

@[simp] theorem solid_ifElse : (ifElse e body otherwise).solid =
    (e.solid && (solidAll body && filled body) && (solidAll otherwise && filled otherwise)) := by
  simp [ifElse]

end

section
variable (e v : Expr) (t : String) (ts : List String) (body other : List Stmt)

@[simp] theorem hasCode_decl : (decl t e).hasCode = true := rfl

@[simp] theorem hasCode_assign : (assign e v).hasCode = true := rfl

@[simp] theorem hasCode_expr : (expr e).hasCode = true := rfl

@[simp] theorem hasCode_forEach : (forEach ts e body).hasCode = true := rfl

@[simp] theorem hasCode_loop : (loop e body).hasCode = true := rfl

@[simp] theorem hasCode_raise : (raise e).hasCode = true := rfl

@[simp] theorem hasCode_attempt : (attempt body t other).hasCode = true := rfl

@[simp] theorem hasCode_delete : (delete e).hasCode = true := rfl

@[simp] theorem hasCode_give : (give e).hasCode = true := rfl

@[simp] theorem hasCode_call (args : List Expr) : (call t args).hasCode = true := rfl

@[simp] theorem hasCode_when : (when e body).hasCode = true := rfl

@[simp] theorem hasCode_ifElse : (ifElse e body other).hasCode = true := rfl

end

end Stmt

@[simp] theorem Expr.solid_method (e : Expr) (name : String) (args : List Expr) :
    (e.method name args).solid = (e.solid && isPlain name && solidAll args) := rfl

@[simp] theorem Expr.solid_callName (function : String) (args : List Expr) :
    (callName function args).solid = (isPlain function && solidAll args) := rfl

@[simp] theorem Expr.leads_method (e : Expr) (name : String) (args : List Expr) :
    (e.method name args).leads = e.leads := rfl

@[simp] theorem Expr.solid_int (n : Int) : (int n).solid = true := rfl

@[simp] theorem Expr.solid_str (s : String) : (str s).solid = true := rfl

@[simp] theorem Expr.solid_bool (b : Bool) : (bool b).solid = true := rfl

@[simp] theorem Expr.solid_none : Expr.none.solid = true := rfl

/-! ## Functions, classes and fragments -/

/-- Whether the names, the type and the default of a parameter stay in a line. -/
def Param.solid (p : Param) : Bool :=
  isPlain p.name && p.type.all isPlain && p.default.all Expr.solid

/-- Whether the lines of a function stay whole and its block has code in it. -/
def Function.solid (f : Function) : Bool :=
  isPlain f.name && f.params.all Param.solid && f.returns.all isPlain && f.doc.isNone &&
    f.body.all fun body => Stmt.solidAll body && Stmt.filled body

/-- Whether a doc text has no double quote, and line feeds alone end its lines. -/
def isDoc (doc : String) : Bool :=
  doc.toList.all fun c => c == '\n' || (!isControl c && c != '"')

/-- Whether the lines of a class stay whole and there is more than a doc text in it. -/
def ClassDef.solid (c : ClassDef) : Bool :=
  isPlain c.name && c.bases.all isPlain && c.doc.all isDoc &&
    c.fields.all (fun f => isPlain f.type && isPlain f.name) && c.methods.all Function.solid &&
    (c.doc.isNone || !c.fields.isEmpty || !c.methods.isEmpty)

/-- Whether the lines of an item stay whole. -/
def Item.solid : Item → Bool
  | comment t => isSafe t
  | classDef c => c.solid
  | function f => f.solid

/-- Whether the lines of a fragment stay whole. -/
def Fragment.solid (f : Fragment) : Bool := f.all Item.solid

/-! ## Replacement -/

/-- What is put in for a solid expression is solid and may stand first in a line. -/
def PutsSolid (f : Expr → Option Expr) : Prop :=
  ∀ e e', e.solid = true → f e = some e' → e'.solid = true ∧ e'.leads = true

section
variable {f : Expr → Option Expr} {e d : Expr}

theorem PutsSolid.solid_getD (hf : PutsSolid f) (he : e.solid = true) (hd : d.solid = true) :
    ((f e).getD d).solid = true := by
  cases h : f e with
  | none => exact hd
  | some e' => exact (hf e e' he h).1

theorem PutsSolid.leads_getD (hf : PutsSolid f) (he : e.solid = true) (hd : d.leads = true) :
    ((f e).getD d).leads = true := by
  cases h : f e with
  | none => exact hd
  | some e' => exact (hf e e' he h).2

namespace Expr

mutual

/-- An expression stays solid when solid ones are put in. -/
theorem solid_replace (hf : PutsSolid f) : ∀ e : Expr, e.solid = true →
    (e.replace f).solid = true
  | .hole, h | .scratch _, h | .name _, h | .literal _, h | .alloc _, h => hf.solid_getD h h
  | .deref e, h | .inc e, h | .not e, h | .hasAttr e _, h => hf.solid_getD h (solid_replace hf e h)
  | .attr e _, h | .isInstance e _, h => hf.solid_getD h <| by
    obtain ⟨he, hn⟩ := Bool.and_eq_true_iff.mp h
    exact Bool.and_eq_true_iff.mpr ⟨solid_replace hf e he, hn⟩
  | .cast _ e, h => hf.solid_getD h <| by
    obtain ⟨ht, he⟩ := Bool.and_eq_true_iff.mp h
    exact Bool.and_eq_true_iff.mpr ⟨ht, solid_replace hf e he⟩
  | .index a b, h | .binary _ a b, h => hf.solid_getD h <| by
    obtain ⟨ha, hb⟩ := Bool.and_eq_true_iff.mp h
    exact Bool.and_eq_true_iff.mpr ⟨solid_replace hf a ha, solid_replace hf b hb⟩
  | .call e args, h => hf.solid_getD h <| by
    obtain ⟨he, hargs⟩ := Bool.and_eq_true_iff.mp h
    exact Bool.and_eq_true_iff.mpr ⟨solid_replace hf e he, solidAll_replaceAll hf args hargs⟩
  | .construct _ args, h => hf.solid_getD h <| by
    obtain ⟨ht, hargs⟩ := Bool.and_eq_true_iff.mp h
    exact Bool.and_eq_true_iff.mpr ⟨ht, solidAll_replaceAll hf args hargs⟩
  | .list items, h => hf.solid_getD h (solidAll_replaceAll hf items h)
  | .dict pairs, h => hf.solid_getD h (solidPairs_replacePairs hf pairs h)

theorem solidAll_replaceAll (hf : PutsSolid f) : ∀ es : List Expr, solidAll es = true →
    solidAll (replaceAll f es) = true
  | [], _ => rfl
  | e :: es, h => by
    obtain ⟨he, hes⟩ := Bool.and_eq_true_iff.mp h
    exact Bool.and_eq_true_iff.mpr ⟨solid_replace hf e he, solidAll_replaceAll hf es hes⟩

theorem solidPairs_replacePairs (hf : PutsSolid f) : ∀ ps : List (Expr × Expr),
    solidPairs ps = true → solidPairs (replacePairs f ps) = true
  | [], _ => rfl
  | (k, v) :: ps, h => by
    obtain ⟨hkv, hps⟩ := Bool.and_eq_true_iff.mp h
    obtain ⟨hk, hv⟩ := Bool.and_eq_true_iff.mp hkv
    rw [replacePairs, solidPairs, solid_replace hf k hk, solid_replace hf v hv,
      solidPairs_replacePairs hf ps hps]
    rfl

end

/-- An expression still leads when leading ones are put in. -/
theorem leads_replace (hf : PutsSolid f) : ∀ e : Expr, e.solid = true → e.leads = true →
    (e.replace f).leads = true
  | .hole, hs, h | .scratch _, hs, h | .name _, hs, h | .literal _, hs, h | .alloc _, hs, h
  | .construct _ _, hs, h => hf.leads_getD hs h
  | .attr e _, hs, h | .call e _, hs, h | .index e _, hs, h | .binary _ e _, hs, h =>
    hf.leads_getD hs (leads_replace hf e (Bool.and_eq_true_iff.mp hs).1 h)
  | .cast _ _, hs, _ | .deref _, hs, _ | .inc _, hs, _ | .not _, hs, _ | .isInstance _ _, hs, _
  | .hasAttr _ _, hs, _ | .list _, hs, _ | .dict _, hs, _ => hf.leads_getD hs rfl
termination_by structural e => e

end Expr

namespace Stmt

theorem hasCode_replace (f : Expr → Option Expr) (s : Stmt) :
    (s.replace f).hasCode = s.hasCode := by
  cases s with
  | branch arms otherwise =>
    rw [replace, hasCode, hasCode]
    congr 1
    · cases arms <;> rfl
    · cases otherwise <;> rfl
  | _ => rfl

theorem anyCode_replaceAll (f : Expr → Option Expr) (ss : List Stmt) :
    anyCode (replaceAll f ss) = anyCode ss := by
  induction ss with
  | nil => rfl
  | cons s ss ih => rw [replaceAll, anyCode, anyCode, hasCode_replace, ih]

theorem filled_replaceAll (f : Expr → Option Expr) (ss : List Stmt) :
    filled (replaceAll f ss) = filled ss := by
  rw [filled, filled, anyCode_replaceAll]
  cases ss <;> rfl

mutual

/-- So does a statement. -/
theorem solid_replace (hf : PutsSolid f) : ∀ s : Stmt, s.solid = true →
    (s.replace f).solid = true
  | .decl _ e, h => by
    obtain ⟨ht, he⟩ := Bool.and_eq_true_iff.mp h
    exact Bool.and_eq_true_iff.mpr ⟨ht, e.solid_replace hf he⟩
  | .assign target value, h => by
    obtain ⟨ht, hv⟩ := Bool.and_eq_true_iff.mp h
    obtain ⟨hl, ht⟩ := Bool.and_eq_true_iff.mp ht
    rw [replace, solid, target.leads_replace hf ht hl, target.solid_replace hf ht,
      value.solid_replace hf hv]
    rfl
  | .expr e, h => by
    obtain ⟨hl, he⟩ := Bool.and_eq_true_iff.mp h
    exact Bool.and_eq_true_iff.mpr ⟨e.leads_replace hf he hl, e.solid_replace hf he⟩
  | .branch arms otherwise, h => by
    obtain ⟨ha, ho⟩ := Bool.and_eq_true_iff.mp h
    exact Bool.and_eq_true_iff.mpr
      ⟨solidArms_replaceArms hf arms ha, solidOption_replaceOption hf otherwise ho⟩
  | .forEach targets source body, h => by
    obtain ⟨hs, hb⟩ := Bool.and_eq_true_iff.mp h
    obtain ⟨ht, hs⟩ := Bool.and_eq_true_iff.mp hs
    rw [replace, solid, ht, source.solid_replace hf hs, solidBlock_replaceAll hf body hb]
    rfl
  | .loop condition body, h => by
    obtain ⟨hc, hb⟩ := Bool.and_eq_true_iff.mp h
    exact Bool.and_eq_true_iff.mpr ⟨condition.solid_replace hf hc, solidBlock_replaceAll hf body hb⟩
  | .ret none, _ | .blank, _ => rfl
  | .ret (some e), h | .raise e, h | .delete e, h => e.solid_replace hf h
  | .attempt body exception handler, h => by
    obtain ⟨hb, hh⟩ := Bool.and_eq_true_iff.mp h
    obtain ⟨hx, hb⟩ := Bool.and_eq_true_iff.mp hb
    rw [replace, solid, hx, solidBlock_replaceAll hf body hb, solidBlock_replaceAll hf handler hh]
    rfl
  | .comment _, h => h

theorem solidAll_replaceAll (hf : PutsSolid f) : ∀ ss : List Stmt, solidAll ss = true →
    solidAll (replaceAll f ss) = true
  | [], _ => rfl
  | s :: ss, h => by
    obtain ⟨hs, hss⟩ := Bool.and_eq_true_iff.mp h
    exact Bool.and_eq_true_iff.mpr ⟨solid_replace hf s hs, solidAll_replaceAll hf ss hss⟩

theorem solidBlock_replaceAll (hf : PutsSolid f) : ∀ ss : List Stmt,
    (solidAll ss && filled ss) = true →
    (solidAll (replaceAll f ss) && filled (replaceAll f ss)) = true
  | [], _ => rfl
  | s :: ss, h => by
    obtain ⟨hs, hb⟩ := Bool.and_eq_true_iff.mp h
    obtain ⟨hs, hss⟩ := Bool.and_eq_true_iff.mp hs
    rw [filled_replaceAll, hb, replaceAll, solidAll, solid_replace hf s hs,
      solidAll_replaceAll hf ss hss]
    rfl

theorem solidArms_replaceArms (hf : PutsSolid f) : ∀ arms : List (Expr × List Stmt),
    solidArms arms = true → solidArms (replaceArms f arms) = true
  | [], _ => rfl
  | (condition, body) :: arms, h => by
    obtain ⟨hb, harms⟩ := Bool.and_eq_true_iff.mp h
    obtain ⟨hc, hb⟩ := Bool.and_eq_true_iff.mp hb
    rw [replaceArms, solidArms, condition.solid_replace hf hc, solidBlock_replaceAll hf body hb,
      solidArms_replaceArms hf arms harms]
    rfl

theorem solidOption_replaceOption (hf : PutsSolid f) : ∀ body : Option (List Stmt),
    solidOption body = true → solidOption (replaceOption f body) = true
  | none, _ => rfl
  | some body, h => solidBlock_replaceAll hf body h

end

end Stmt

end

/-! ## Recipes -/

/-- A text that may be a name, or the start of one. -/
structure Nameable (s : String) : Prop where
  plain : isPlain s = true
  leading : isLeading s = true

section
variable {s : String} (h : Nameable s)
include h

theorem Nameable.solid_name {suffix : String} (hs : isPlain suffix = true) :
    (Expr.name (s ++ suffix)).solid = true := by
  simp [h.plain, hs]

theorem Nameable.leads_name (suffix : String) : (Expr.name (s ++ suffix)).leads = true :=
  isLeading_append h.leading suffix

end

namespace Recipe

/-- Whether the three parts of a conversion are solid. -/
def solid (r : Recipe) : Bool :=
  Stmt.solidAll r.decls && Stmt.solidAll r.setup && r.result.solid

theorem solid_iff {r : Recipe} : r.solid = true ↔ Stmt.solidAll r.decls = true ∧
    Stmt.solidAll r.setup = true ∧ r.result.solid = true := by
  rw [solid, Bool.and_eq_true, Bool.and_eq_true, and_assoc]

variable {source : Expr} {stem storage : String} {item key value : Recipe}

variable (hstem : Nameable stem) (hsource : source.solid = true)
include hstem hsource

theorem solid_bind {r : Recipe} (hr : r.solid = true) (hl : source.leads = true) :
    (r.bind source stem).solid = true := by
  have hf : PutsSolid (slotValue source stem) := by
    intro e e' he h
    cases e <;> cases h
    · exact ⟨hsource, hl⟩
    · refine ⟨?_, isLeading_append (isLeading_append hstem.leading _) _⟩
      simp_all +decide [hstem.plain]
  obtain ⟨hd, hb, hres⟩ := solid_iff.mp hr
  exact solid_iff.mpr ⟨Stmt.solidAll_replaceAll hf _ hd, Stmt.solidAll_replaceAll hf _ hb,
    Expr.solid_replace hf _ hres⟩

variable (hstorage : isPlain storage = true)
include hstorage

theorem solid_storeItems {insertion : String} (hinsertion : isPlain insertion = true)
    (hi : item.solid = true) : (storeItems stem storage insertion source item).solid = true := by
  obtain ⟨hd, hb, hr⟩ := solid_iff.mp hi
  simp +decide [solid, storeItems, hstem.plain, isLeading_append hstem.leading, hsource, hstorage,
    hinsertion, hd, hb, hr]

theorem solid_storeEntries (hk : key.solid = true) (hv : value.solid = true) :
    (storeEntries stem storage source key value).solid = true := by
  obtain ⟨hkd, hkb, hkr⟩ := solid_iff.mp hk
  obtain ⟨hvd, hvb, hvr⟩ := solid_iff.mp hv
  simp +decide [solid, storeEntries, hstem.plain, isLeading_append hstem.leading, hsource, hstorage,
    hkd, hkb, hkr, hvd, hvb, hvr]

theorem solid_loadItems {addition : String} {empty : Expr} (haddition : isPlain addition = true)
    (he : empty.solid = true) (hi : item.solid = true) :
    (loadItems stem storage addition source empty item).solid = true := by
  obtain ⟨hd, hb, hr⟩ := solid_iff.mp hi
  simp +decide [solid, loadItems, walk, hstem.plain, isLeading_append hstem.leading, hsource,
    hstorage, haddition, he, hd, hb, hr]

theorem solid_loadEntries (hk : key.solid = true) (hv : value.solid = true) :
    (loadEntries stem storage source key value).solid = true := by
  obtain ⟨hkd, hkb, hkr⟩ := solid_iff.mp hk
  obtain ⟨hvd, hvb, hvr⟩ := solid_iff.mp hv
  simp +decide [solid, loadEntries, walk, hstem.plain, isLeading_append hstem.leading, hsource,
    hstorage, hkd, hkb, hkr, hvd, hvb, hvr]

end Recipe

end WrapGen.Code
