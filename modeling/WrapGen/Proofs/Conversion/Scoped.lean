import WrapGen.Proofs.Code.Tidy
import WrapGen.Proofs.Conversion.Induction
import WrapGen.Proofs.Conversion.Recipes

/-!
# Conversion code keeps to its scope

A conversion declares temporaries that extend the stem of its source, one stem a
level, and are distinct for that reason. Everything that it reads is its source,
from outside, or has got a value before, whatever the path.

* `Recipe.Scoped`: what a conversion declares, which names it uses and what it reads.
* `Catalog.toStorage_scoped`, `Catalog.toHost_scoped`: the code of every type is
  scoped, in both directions.
-/
namespace WrapGen

open Code Text

namespace Code.Recipe

/-- The code of a conversion of `source` with the declarations `ds`. -/
structure Scoped (source : Expr) (r : Recipe) (ds : List Declaration) : Prop where
  decls : r.decls = ds.map Declaration.stmt
  nodup : (ds.map Declaration.name).Nodup
  temporary : ∀ d ∈ ds, IsTemporary d.name
  extend : ∀ d ∈ ds, Extends source.stem d.name
  tidy : ∀ fixed loops, Stmt.TidyAll fixed loops r.setup
  /-- If the source may be read before, the result may be read after. -/
  takes : ∀ (sc : Scope) (A : Set String), sc.Declares ds → (∀ x, IsGlobal x → x ∈ A) →
    (∀ x ∈ source.reads, x ∈ A) → sc.TakesAll A r.setup {x | x ∈ r.result.reads}

open Scope

variable {source : Expr} {ds ks vs : List Declaration} {item key value : Recipe}

theorem Scoped.ofResult {e : Expr} (he : ∀ x ∈ e.reads, IsGlobal x ∨ x ∈ source.reads) :
    (Recipe.ofResult e).Scoped source [] where
  decls := rfl
  nodup := List.nodup_nil
  temporary := List.forall_mem_nil _
  extend := List.forall_mem_nil _
  tidy _ _ := trivial
  takes sc A _ hglobal hsource := by
    refine takes_nil.keep.mono subset_rfl fun x hx => Or.inl ?_
    exact (he x hx).elim (hglobal x) (hsource x)

/-- Names that extend the stem with a suffix are other names than the stem with
another suffix. -/
theorem Scoped.not_mem_names {stem s : String} {source : Expr} {r : Recipe} (h : r.Scoped source ds)
    (hstem : source.stem = stem ++ s) (hs : IsSuffix s) {t : String} (ht : IsSuffix t) :
    stem ++ t ∉ ds.map Declaration.name := by
  intro hm
  obtain ⟨d, hd, he⟩ := List.mem_map.mp hm
  have hext := h.extend d hd
  rw [he, hstem] at hext
  exact hs.not_extends ht hext

/-- A container is filled in a loop over the items. -/
theorem Scoped.storeItems {storage : String} (insertion : String) (hs : IsGlobal storage)
    (h : item.Scoped (.name (source.stem ++ "_item")) ds) :
    (storeItems source.stem storage insertion source item).Scoped source
      (⟨storage, source.stem ++ "_cpp"⟩ :: ds) := by
  have hstem := stem_name_suffix (isStem_stem_expr source) item_isSuffix
  have hcpp : IsTemporary (source.stem ++ "_cpp") := endsIn_append (by decide) _
  have hitem : IsLoopName (source.stem ++ "_item") := endsIn_append (by decide) _
  constructor
  case decls =>
    rw [Recipe.storeItems, h.decls]
    rfl
  case nodup =>
    exact List.nodup_cons.mpr ⟨h.not_mem_names hstem item_isSuffix cpp_isSuffix, h.nodup⟩
  case temporary => exact List.forall_mem_cons.mpr ⟨hcpp, h.temporary⟩
  case extend =>
    refine List.forall_mem_cons.mpr ⟨cpp_isSuffix.extends, fun d hd => ?_⟩
    exact item_isSuffix.extends.trans (hstem ▸ h.extend d hd)
  case tidy =>
    simp [Recipe.storeItems, hcpp, hitem, h.tidy]
  case takes =>
    intro sc A hdecl hglobal hsource
    let B : Set String := A ∪ {source.stem ++ "_cpp"}
    have hinit : sc.Takes A
        (Stmt.assign (.name (source.stem ++ "_cpp")) (.callName storage [])).paths
        {source.stem ++ "_cpp"} :=
      takes_assign_name (by simpa using hglobal _ hs)
    have hitem : sc.TakesAll (B ∪ {x | x ∈ [source.stem ++ "_item"]}) item.setup
        {x | x ∈ item.result.reads} := by
      refine h.takes sc _ (hdecl.mono fun d hd => List.mem_cons_of_mem _ hd) (fun x hx => ?_) ?_
      · exact Or.inl (Or.inl (hglobal x hx))
      · simp
    have hfill : sc.Takes B (Stmt.forEach [source.stem ++ "_item"] source
        (item.setup ++ [Stmt.expr ((Expr.name (source.stem ++ "_cpp")).method insertion
          [item.result])])).paths ∅ := by
      refine takes_forEach (fun x hx => Or.inl (hsource x hx)) (hitem.append (takes_expr ?_).single)
      simp +contextual [B]
    refine (hinit.cons hfill.single).mono subset_rfl ?_
    simp [Recipe.storeItems]

/-- The declarations of two conversions are distinct if their stems have no extension in
common. -/
theorem Scoped.nodup_append {a b : Expr} (hk : key.Scoped a ks) (hv : value.Scoped b vs)
    (hapart : ∀ x, Extends a.stem x → ¬ Extends b.stem x) :
    ((ks ++ vs).map Declaration.name).Nodup := by
  rw [List.map_append]
  refine List.nodup_append.mpr ⟨hk.nodup, hv.nodup, ?_⟩
  rintro _ hx _ hy rfl
  obtain ⟨d, hd, hx⟩ := List.mem_map.mp hx
  obtain ⟨e, he, hy⟩ := List.mem_map.mp hy
  exact hapart _ (hx ▸ hk.extend d hd) (hy ▸ hv.extend e he)

/-- Two conversions one after the other make both results readable. -/
theorem Scoped.takes_both {a b : Expr} (hk : key.Scoped a ks) (hv : value.Scoped b vs) {sc : Scope}
    {A : Set String} (hdecl : sc.Declares (ks ++ vs)) (hglobal : ∀ x, IsGlobal x → x ∈ A)
    (ha : ∀ x ∈ a.reads, x ∈ A) (hb : ∀ x ∈ b.reads, x ∈ A) :
    sc.TakesAll A (key.setup ++ value.setup)
      ({x | x ∈ key.result.reads} ∪ {x | x ∈ value.result.reads}) :=
  (hk.takes sc A (hdecl.mono fun _ => List.mem_append_left vs) hglobal ha).append
    (hv.takes sc A (hdecl.mono fun _ => List.mem_append_right ks) hglobal hb).extend

/-- A map is filled in a loop over the entries. -/
theorem Scoped.storeEntries {storage : String} (hs : IsGlobal storage)
    (hk : key.Scoped (.name (source.stem ++ "_key")) ks)
    (hv : value.Scoped (.name (source.stem ++ "_val")) vs) :
    (storeEntries source.stem storage source key value).Scoped source
      (⟨storage, source.stem ++ "_cpp"⟩ :: (ks ++ vs)) := by
  have hks := stem_name_suffix (isStem_stem_expr source) key_isSuffix
  have hvs := stem_name_suffix (isStem_stem_expr source) val_isSuffix
  have hcpp : IsTemporary (source.stem ++ "_cpp") := endsIn_append (by decide) _
  have hkey : IsLoopName (source.stem ++ "_key") := endsIn_append (by decide) _
  have hval : IsLoopName (source.stem ++ "_val") := endsIn_append (by decide) _
  constructor
  case decls =>
    rw [Recipe.storeEntries, hk.decls, hv.decls, List.map_cons, List.map_append]
    rfl
  case nodup =>
    refine List.nodup_cons.mpr ⟨?_, hk.nodup_append hv fun x hx => ?_⟩
    · rw [List.map_append, List.mem_append, not_or]
      exact ⟨hk.not_mem_names hks key_isSuffix cpp_isSuffix,
        hv.not_mem_names hvs val_isSuffix cpp_isSuffix⟩
    · rw [hks] at hx
      rw [hvs]
      exact hx.not_of_suffix key_isSuffix val_isSuffix (by decide)
  case temporary =>
    exact List.forall_mem_cons.mpr ⟨hcpp, List.forall_mem_append.mpr ⟨hk.temporary, hv.temporary⟩⟩
  case extend =>
    refine List.forall_mem_cons.mpr ⟨cpp_isSuffix.extends, List.forall_mem_append.mpr
      ⟨fun d hd => ?_, fun d hd => ?_⟩⟩
    · exact key_isSuffix.extends.trans (hks ▸ hk.extend d hd)
    · exact val_isSuffix.extends.trans (hvs ▸ hv.extend d hd)
  case tidy => simp [Recipe.storeEntries, hcpp, hkey, hval, hk.tidy, hv.tidy]
  case takes =>
    intro sc A hdecl hglobal hsource
    let B : Set String := A ∪ {source.stem ++ "_cpp"}
    have hinit : sc.Takes A
        (Stmt.assign (.name (source.stem ++ "_cpp")) (.callName storage [])).paths
        {source.stem ++ "_cpp"} :=
      takes_assign_name (by simpa using hglobal _ hs)
    have hentry : sc.TakesAll (B ∪ {x | x ∈ [source.stem ++ "_key", source.stem ++ "_val"]})
        (key.setup ++ value.setup)
        ({x | x ∈ key.result.reads} ∪ {x | x ∈ value.result.reads}) := by
      refine hk.takes_both hv (hdecl.mono fun d hd => List.mem_cons_of_mem _ hd)
        (fun x hx => Or.inl (Or.inl (hglobal x hx))) ?_ ?_ <;> simp
    have hfill : sc.Takes B (Stmt.forEach [source.stem ++ "_key", source.stem ++ "_val"]
        (source.method "items" []) (key.setup ++ value.setup ++
          [Stmt.assign (.index (.name (source.stem ++ "_cpp")) key.result)
            value.result])).paths ∅ := by
      refine takes_forEach (fun x hx => Or.inl (hsource x (by simpa using hx)))
        (hentry.append (takes_assign_index ?_ ?_ ?_).single)
      · exact fun x hx => Or.inr (Or.inr hx)
      · simp [B]
      · exact fun x hx => Or.inr (Or.inl hx)
    refine (hinit.cons hfill.single).mono subset_rfl ?_
    simp [Recipe.storeEntries]

/-- A container is walked with a position. -/
theorem Scoped.walk {storage : String} {empty : Expr} {decls body : List Stmt}
    (hempty : ∀ x ∈ empty.reads, IsGlobal x) (hdecls : decls = ds.map Declaration.stmt)
    (hnodup : (ds.map Declaration.name).Nodup) (htemporary : ∀ d ∈ ds, IsTemporary d.name)
    (hextend : ∀ d ∈ ds, Extends (source.stem ++ "_iter") d.name)
    (htidy : ∀ fixed loops, Stmt.TidyAll fixed loops body)
    (htakes : ∀ (sc : Scope) (A : Set String), sc.Declares ds → (∀ x, IsGlobal x → x ∈ A) →
      source.stem ++ "_py" ∈ A → source.stem ++ "_iter" ∈ A → sc.TakesAll A body ∅) :
    (walk source.stem storage source empty decls body).Scoped source
      (⟨storage ++ ".iterator", source.stem ++ "_iter"⟩ :: ds) := by
  have hpy : IsTemporary (source.stem ++ "_py") := endsIn_append (by decide) _
  have hiter : IsTemporary (source.stem ++ "_iter") := endsIn_append (by decide) _
  constructor
  case decls =>
    rw [Recipe.walk, hdecls]
    rfl
  case nodup =>
    refine List.nodup_cons.mpr ⟨fun hm => ?_, hnodup⟩
    obtain ⟨d, hd, he⟩ := List.mem_map.mp hm
    exact not_extends_self _ (he ▸ hextend d hd)
  case temporary => exact List.forall_mem_cons.mpr ⟨hiter, htemporary⟩
  case extend =>
    exact List.forall_mem_cons.mpr
      ⟨iter_isSuffix.extends, fun d hd => iter_isSuffix.extends.trans (hextend d hd)⟩
  case tidy => simp [Recipe.walk, hpy, hiter, htidy]
  case takes =>
    intro sc A hdecl hglobal hsource
    let C : Set String := A ∪ {source.stem ++ "_py"} ∪ {source.stem ++ "_iter"}
    have hstart : sc.Takes A (Stmt.assign (.name (source.stem ++ "_py")) empty).paths
        {source.stem ++ "_py"} := takes_assign_name fun x hx => hglobal x (hempty x hx)
    have hbegin : sc.Takes (A ∪ {source.stem ++ "_py"})
        (Stmt.assign (.name (source.stem ++ "_iter")) (source.method "begin" [])).paths
        {source.stem ++ "_iter"} :=
      takes_assign_name fun x hx => Or.inl (hsource x (by simpa using hx))
    have hround : sc.TakesAll C (body ++ [Stmt.expr (.inc (.name (source.stem ++ "_iter")))])
        (∅ ∪ ∅) := by
      refine (htakes sc C (hdecl.mono fun d hd => List.mem_cons_of_mem _ hd)
        (fun x hx => Or.inl (Or.inl (hglobal x hx))) ?_ ?_).append (takes_expr ?_).single
      all_goals simp [C]
    have hwalk := takes_loop (e := .binary .notEq (.name (source.stem ++ "_iter"))
      (source.method "end" [])) (by simp +contextual [C, hsource]) hround
    refine (hstart.cons (hbegin.cons hwalk.single)).mono subset_rfl ?_
    simp [Recipe.walk]

theorem Scoped.loadItems {storage : String} (addition : String) {empty : Expr}
    (hempty : ∀ x ∈ empty.reads, IsGlobal x)
    (h : item.Scoped (.deref (.name (source.stem ++ "_iter"))) ds) :
    (loadItems source.stem storage addition source empty item).Scoped source
      (⟨storage ++ ".iterator", source.stem ++ "_iter"⟩ :: ds) := by
  have hstem : (Expr.deref (.name (source.stem ++ "_iter"))).stem = source.stem ++ "_iter" :=
    stem_name_suffix (isStem_stem_expr source) iter_isSuffix
  refine Scoped.walk hempty h.decls h.nodup h.temporary (hstem ▸ h.extend) (by simp [h.tidy])
    fun sc A hdecl hglobal hpy hiter => ?_
  refine ((h.takes sc A hdecl hglobal (by simpa using hiter)).append (takes_expr ?_).single).forget
  simp +contextual [hpy]

theorem Scoped.loadEntries {storage : String}
    (hk : key.Scoped (.attr (.deref (.name (source.stem ++ "_iter"))) "first") ks)
    (hv : value.Scoped (.attr (.deref (.name (source.stem ++ "_iter"))) "second") vs) :
    (loadEntries source.stem storage source key value).Scoped source
      (⟨storage ++ ".iterator", source.stem ++ "_iter"⟩ :: (ks ++ vs)) := by
  have hks := stem_first (isStem_stem_expr source)
  have hvs := stem_second (isStem_stem_expr source)
  refine Scoped.walk (by simp) ?_ (hk.nodup_append hv fun x hx => ?_)
    (List.forall_mem_append.mpr ⟨hk.temporary, hv.temporary⟩)
    (List.forall_mem_append.mpr ⟨fun d hd => ?_, fun d hd => ?_⟩) (by simp [hk.tidy, hv.tidy])
    fun sc A hdecl hglobal hpy hiter => ?_
  · rw [hk.decls, hv.decls, List.map_append]
  · rw [hks] at hx
    rw [hvs]
    exact hx.not_of_suffix first_isSuffix second_isSuffix (by decide)
  · exact first_isSuffix.extends.trans (hks ▸ hk.extend d hd)
  · exact second_isSuffix.extends.trans (hvs ▸ hv.extend d hd)
  · refine ((hk.takes_both hv hdecl hglobal (by simpa using hiter) (by simpa using hiter)).append
      (takes_assign_index ?_ ?_ ?_).single).forget
    · exact fun x hx => Or.inr (Or.inr hx)
    · simp [hpy]
    · exact fun x hx => Or.inr (Or.inl hx)

end Code.Recipe

namespace Catalog

open Scope

variable {source : Expr} {r : Recipe} {storage : String}

/-! ## Primitives -/

theorem isTemporary_word {stem w : String} (hw : w ∈ ["bytes", "proxy"]) :
    IsTemporary (stem ++ "_" ++ w) := by
  have hall : ∀ w ∈ ["bytes", "proxy"],
      "_" ++ w ∈ ["_cpp", "_py", "_iter", "_bytes", "_proxy"] := by decide
  rw [String.append_assoc]
  exact endsIn_append (hall w hw) stem

theorem strToStorage_scoped (h : builtin.toStorage source (.primitive .str) = .ok r) :
    r.Scoped source [⟨"bytes", source.stem ++ "_" ++ "bytes"⟩] := by
  rw [toStorage_str] at h
  cases h
  have ht : IsTemporary (source.stem ++ "_" ++ "bytes") := isTemporary_word (by decide)
  constructor
  case decls => rfl
  case nodup => exact List.nodup_cons.mpr ⟨List.not_mem_nil, List.nodup_nil⟩
  case temporary => exact List.forall_mem_singleton.mpr ht
  case extend => exact List.forall_mem_singleton.mpr (extends_of_word _ (by decide))
  case tidy => simp [ht]
  case takes =>
    intro sc A _ _ hsource
    refine (takes_assign_name fun x hx => hsource x (by simpa using hx)).single.mono subset_rfl ?_
    simp

/-- Both fields of the proxy are set before it is read. -/
theorem complexToStorage_scoped (h : builtin.toStorage source (.primitive .complex128) = .ok r) :
    r.Scoped source [⟨Recipe.complexType, source.stem ++ "_" ++ "proxy"⟩] := by
  rw [toStorage_complex] at h
  cases h
  have ht : IsTemporary (source.stem ++ "_" ++ "proxy") := isTemporary_word (by decide)
  constructor
  case decls => rfl
  case nodup => exact List.nodup_cons.mpr ⟨List.not_mem_nil, List.nodup_nil⟩
  case temporary => exact List.forall_mem_singleton.mpr ht
  case extend => exact List.forall_mem_singleton.mpr (extends_of_word _ (by decide))
  case tidy => simp
  case takes =>
    intro sc A hdecl _ hsource
    have hproxy := hdecl _ List.mem_cons_self rfl
    refine (takes_assign_fields hproxy (fun x hx => hsource x hx) fun x hx => hsource x hx).mono
      subset_rfl ?_
    simp

theorem toStorage_primitive_scoped {p : Primitive}
    (h : builtin.toStorage source (.primitive p) = .ok r) : ∃ ds, r.Scoped source ds := by
  by_cases hs : p = .str
  · subst hs
    exact ⟨_, strToStorage_scoped h⟩
  · by_cases hc : p = .complex128
    · subst hc
      exact ⟨_, complexToStorage_scoped h⟩
    · obtain ⟨type, -, h'⟩ := toStorage_cast source hs hc
      cases h.symm.trans h'
      exact ⟨[], .ofResult fun x hx => Or.inr hx⟩

/-- The call of a host type reads what its arguments read. -/
theorem reads_hostCall {type : String} {args : List Expr}
    (htype : type ∈ ["bytes", "complex", "float", "int", "set"])
    (hargs : ∀ x ∈ Expr.readsAll args, IsGlobal x ∨ x ∈ source.reads) :
    ∀ x ∈ (Expr.callName type args).reads, IsGlobal x ∨ x ∈ source.reads :=
  List.forall_mem_cons.mpr ⟨Or.inl (Or.inl htype), hargs⟩

theorem toHost_primitive_scoped {p : Primitive}
    (h : builtin.toHost source (.primitive p) = .ok r) : ∃ ds, r.Scoped source ds := by
  have hsource : ∀ x ∈ source.reads, IsGlobal x ∨ x ∈ source.reads := fun _ => Or.inr
  by_cases hs : p = .str
  · subst hs
    cases h.symm.trans (toHost_str source)
    refine ⟨[], .ofResult (List.forall_mem_append.mpr ⟨?_, List.forall_mem_nil _⟩)⟩
    exact reads_hostCall (by decide) (by simpa using hsource)
  · by_cases hc : p = .complex128
    · subst hc
      cases h.symm.trans (toHost_complex source)
      refine ⟨[], .ofResult (reads_hostCall (by decide) ?_)⟩
      have hfield : ∀ x ∈ (Expr.callName "float" [source]).reads,
          IsGlobal x ∨ x ∈ source.reads := reads_hostCall (by decide) (by simpa using hsource)
      exact List.forall_mem_append.mpr ⟨hfield, List.forall_mem_append.mpr
        ⟨hfield, List.forall_mem_nil _⟩⟩
    · cases h.symm.trans (toHost_call source hs hc)
      refine ⟨[], .ofResult (reads_hostCall ?_ (by simpa using hsource))⟩
      split <;> decide

/-! ## Every type -/

/-- The storage type of a container ends in a bracket. -/
theorem isGlobal_storageType {c : Catalog} {t : ElementType} {text : String}
    (h : c.storageType t = .ok text) (ht : t.primitive? = none) : IsGlobal text := by
  cases t with
  | primitive p => cases ht
  | vector e | set e =>
    obtain ⟨e', -, h⟩ := bind_eq_ok h
    cases h
    exact .inr (endsIn_append (by decide) _)
  | map k v =>
    obtain ⟨k', -, h⟩ := bind_eq_ok h
    obtain ⟨v', -, h⟩ := bind_eq_ok h
    cases h
    exact .inr (endsIn_append (by decide) _)

theorem toStorage_scoped {t : ElementType} {source : Expr} {r : Recipe}
    (h : builtin.toStorage source t = .ok r) : ∃ ds, r.Scoped source ds := by
  refine toStorage_induction (P := fun source r => ∃ ds, r.Scoped source ds)
    toStorage_primitive_scoped ?_ ?_ h
  · rintro source t storage item hs ht ⟨ds, hds⟩ insertion -
    exact ⟨_, hds.storeItems insertion (isGlobal_storageType hs ht)⟩
  · rintro source t storage key value hs ht ⟨ks, hks⟩ ⟨vs, hvs⟩
    exact ⟨_, hks.storeEntries (isGlobal_storageType hs ht) hvs⟩

theorem toHost_scoped {t : ElementType} {source : Expr} {r : Recipe}
    (h : builtin.toHost source t = .ok r) : ∃ ds, r.Scoped source ds := by
  refine toHost_induction (P := fun source r => ∃ ds, r.Scoped source ds)
    toHost_primitive_scoped ?_ ?_ h
  · rintro source t storage item - ⟨ds, hds⟩ filler hfiller
    have hempty : ∀ f ∈ fillers, ∀ x ∈ f.2.reads, IsGlobal x := by simp [fillers, IsGlobal]
    exact ⟨_, hds.loadItems filler.1 (hempty filler hfiller)⟩
  · rintro source t storage key value - ⟨ks, hks⟩ ⟨vs, hvs⟩
    exact ⟨_, hks.loadEntries hvs⟩

end Catalog

end WrapGen
