import WrapGen.Proofs.Conversion.Stored

/-!
# Code that makes host values

Run on a storage value of a type, the code for the type ends, and its result is
the host value that the storage value converts to, with its sets and dicts
filled one by one.

The proof is by induction on the type. The walk over a container has as its
invariant that `stem_iter` is at a place, that `stem_py` holds what the items in
front of it give, and that the source is the container still.

* `toHost_yields`: the main statement.
-/
namespace WrapGen

open Binary Code Execution Text

/-! ## Data of a type -/

namespace Datum

mutual

/-- Whether a storage value is one of a type. -/
def hasType : Datum → ElementType → Bool
  | .str _, .primitive .str => true
  | .integer k _, .primitive p => p.integerKind? == some k
  | .float32 _, .primitive .float32 => true
  | .float64 _, .primitive .float64 => true
  | .complex _ _, .primitive .complex128 => true
  | .vector items, .vector e => hasTypeAll items e
  | .set items, .set e => hasTypeAll items e
  | .map entries, .map k v => hasTypeEntries entries k v
  | _, _ => false
termination_by structural d => d

/-- Whether all items are of a type. -/
def hasTypeAll : List Datum → ElementType → Bool
  | [], _ => true
  | d :: ds, t => hasType d t && hasTypeAll ds t
termination_by structural ds => ds

/-- Whether the keys and the values of all entries are of two types. -/
def hasTypeEntries : List (Datum × Datum) → ElementType → ElementType → Bool
  | [], _, _ => true
  | (k, v) :: es, kt, vt => hasType k kt && hasType v vt && hasTypeEntries es kt vt
termination_by structural es => es

end

mutual

/-- A storage value of a type converts to a host value. -/
theorem toHost_of_hasType : ∀ {d : Datum} {t : ElementType}, d.hasType t = true →
    ∃ v, d.toHost t = .ok v
  | .str _, _, _ | .integer _ _, _, _ | .float32 _, _, _ | .float64 _, _, _
  | .complex _ _, _, _ => ⟨_, rfl⟩
  | .vector items, .vector e, h => by
    have hs : hasTypeAll items e = true := h
    obtain ⟨vs, hvs⟩ := toHostAll_of_hasType hs
    exact ⟨.list vs, by rw [toHost, hvs]; rfl⟩
  | .set items, .set e, h => by
    have hs : hasTypeAll items e = true := h
    obtain ⟨vs, hvs⟩ := toHostAll_of_hasType hs
    exact ⟨.set vs, by rw [toHost, hvs]; rfl⟩
  | .map entries, .map k v, h => by
    have hs : hasTypeEntries entries k v = true := h
    obtain ⟨es, hes⟩ := toHostEntries_of_hasType hs
    exact ⟨.dict es, by rw [toHost, hes]; rfl⟩
  | .vector _, .primitive _, h | .vector _, .set _, h | .vector _, .map _ _, h
  | .set _, .primitive _, h | .set _, .vector _, h | .set _, .map _ _, h
  | .map _, .primitive _, h | .map _, .vector _, h | .map _, .set _, h => by
    cases h

theorem toHostAll_of_hasType : ∀ {items : List Datum} {e : ElementType},
    hasTypeAll items e = true → ∃ vs, toHostAll items e = .ok vs
  | [], _, _ => ⟨[], rfl⟩
  | d :: ds, e, h => by
    rw [hasTypeAll, Bool.and_eq_true] at h
    obtain ⟨v, hv⟩ := toHost_of_hasType h.1
    obtain ⟨vs, hvs⟩ := toHostAll_of_hasType h.2
    exact ⟨v :: vs, by rw [toHostAll, hv, hvs]; rfl⟩

theorem toHostEntries_of_hasType : ∀ {entries : List (Datum × Datum)} {k v : ElementType},
    hasTypeEntries entries k v = true → ∃ es, toHostEntries entries k v = .ok es
  | [], _, _, _ => ⟨[], rfl⟩
  | (a, b) :: es, k, v, h => by
    rw [hasTypeEntries, Bool.and_eq_true, Bool.and_eq_true] at h
    obtain ⟨x, hx⟩ := toHost_of_hasType h.1.1
    obtain ⟨y, hy⟩ := toHost_of_hasType h.1.2
    obtain ⟨rest, hr⟩ := toHostEntries_of_hasType h.2
    exact ⟨(x, y) :: rest, by rw [toHostEntries, hx, hy, hr]; rfl⟩

end

/-- A storage value of a type gives the host value `m`, merged. -/
def Loads (t : ElementType) (d : Datum) (m : HostValue) : Prop :=
  d.hasType t = true ∧ ∃ v, d.toHost t = .ok v ∧ v.merged = m

theorem loads_items {e : ElementType} : ∀ {items : List Datum} {vs : List HostValue},
    hasTypeAll items e = true → toHostAll items e = .ok vs →
    List.Forall₂ (Loads e) items (HostValue.mergedAll vs)
  | [], vs, _, h => by
    cases h
    exact .nil
  | d :: ds, vs, ht, h => by
    rw [hasTypeAll, Bool.and_eq_true] at ht
    obtain ⟨v, hv, h⟩ := bind_eq_ok h
    obtain ⟨ws, hws, h⟩ := bind_eq_ok h
    cases h
    exact .cons ⟨ht.1, v, hv, rfl⟩ (loads_items ht.2 hws)

theorem loads_entries {k v : ElementType} : ∀ {entries : List (Datum × Datum)}
    {es : List (HostValue × HostValue)},
    hasTypeEntries entries k v = true → toHostEntries entries k v = .ok es →
    List.Forall₂ (fun d m => Loads k d.1 m.1 ∧ Loads v d.2 m.2) entries
      (HostValue.mergedEntries es)
  | [], es, _, h => by
    cases h
    exact .nil
  | (a, b) :: ds, es, ht, h => by
    rw [hasTypeEntries, Bool.and_eq_true, Bool.and_eq_true] at ht
    obtain ⟨x, hx, h⟩ := bind_eq_ok h
    obtain ⟨y, hy, h⟩ := bind_eq_ok h
    obtain ⟨rest, hr, h⟩ := bind_eq_ok h
    cases h
    exact .cons ⟨⟨ht.1.1, x, hx, rfl⟩, ⟨ht.1.2, y, hy, rfl⟩⟩ (loads_entries ht.2 hr)

end Datum

/-! ## Containers -/

namespace Code.Recipe

variable {source : Expr} {env : Env}

/-- A walk gives what the body makes of the items, from the first to the last.
The body keeps the position and all names outside the stem of the source. -/
theorem walk_yields {δ β : Type} {storage : String} {empty : Expr} {decls body : List Stmt}
    {container : Datum} {ds : List δ} {wrap : β → HostValue} {f : β → δ → β} {start : β}
    (hsource : source.IsStable) (hw : eval env source = .ok (.datum container))
    (hcount : itemCount? container = some ds.length)
    (hempty : ∀ env, eval env empty = .ok (.host (wrap start)))
    (hbody : ∀ i d acc env, ds[i]? = some d →
      env (source.stem ++ "_iter") = some (.position container i) →
      env (source.stem ++ "_py") = some (.host (wrap acc)) →
      ∃ env', Runs body env env' ∧ env' (source.stem ++ "_py") = some (.host (wrap (f acc d))) ∧
        env' (source.stem ++ "_iter") = some (.position container i) ∧
        ∀ x, ¬ Extends source.stem x → env' x = env x) :
    (walk source.stem storage source empty decls body).Yields env
      (.host (wrap (ds.foldl f start))) := by
  let py := source.stem ++ "_py"
  let iter := source.stem ++ "_iter"
  have hne : py ≠ iter := append_ne (by decide)
  have hpy : Extends source.stem py := py_isSuffix.extends
  have hiter : Extends source.stem iter := iter_isSuffix.extends
  have hbegin : ∀ {env : Env}, eval env source = .ok (.datum container) →
      eval env (source.method "begin" []) = .ok (.position container 0) :=
    fun h => eval_method h (by simp only [Val.method, hcount, Option.map])
  have hend : ∀ {env : Env}, eval env source = .ok (.datum container) →
      eval env (source.method "end" []) = .ok (.position container ds.length) :=
    fun h => eval_method h (by simp only [Val.method, hcount, Option.map])
  have hstable : ∀ {env env' : Env}, (∀ x, ¬ Extends source.stem x → env' x = env x) →
      eval env source = .ok (.datum container) → eval env' source = .ok (.datum container) :=
    fun h hv => (hsource.eval_eq h).trans hv
  have hw₁ : eval (env.bind py (.host (wrap start))) source = .ok (.datum container) :=
    hstable (fun x hx => bind_of_ne fun h => hx (h ▸ hpy)) hw
  let Inv := fun (i : Nat) (acc : β) (env : Env) => env py = some (.host (wrap acc)) ∧
    env iter = some (.position container i) ∧ eval env source = .ok (.datum container)
  have htest : ∀ i acc env, i ≤ ds.length → Inv i acc env →
      holds env (.binary .notEq (.name iter) (source.method "end" [])) =
        .ok (i != ds.length) := by
    rintro i acc env - ⟨-, hi, hs⟩
    exact holds_notEq (eval_name hi) (hend hs) rfl
  have hstep : ∀ i d acc env, ds[i]? = some d → Inv i acc env →
      ∃ env', Runs (body ++ [.expr (.inc (.name iter))]) env env' ∧ Inv (i + 1) (f acc d) env' := by
    rintro i d acc env hd ⟨hp, hi, hs⟩
    obtain ⟨env₁, hrun, hp₁, hi₁, hkeep⟩ := hbody i d acc env hd hi hp
    refine ⟨_, hrun.append (runs_inc hi₁ rfl), ?_, bind_self _ _ _, ?_⟩
    · rw [bind_of_ne hne, hp₁]
    · refine hstable (fun x hx => ?_) hs
      have hxi : x ≠ iter := fun h => hx (h ▸ hiter)
      rw [bind_of_ne hxi, hkeep x hx]
  have hinit : Inv 0 start ((env.bind py (.host (wrap start))).bind iter
      (.position container 0)) := by
    refine ⟨?_, bind_self _ _ _, ?_⟩
    · rw [bind_of_ne hne, bind_self]
    · exact hstable (fun x hx => bind_of_ne fun h => hx (h ▸ hiter)) hw₁
  obtain ⟨env', hrun, hpy', -, -⟩ := runs_loop htest hstep hinit
  exact ⟨env', (runs_assign (hempty env) rfl).cons ((runs_assign (hbegin hw₁) rfl).cons hrun),
    eval_name hpy'⟩

/-- A storage container is walked, and its items are added to a host value. -/
theorem loadItems_yields (wrap : List HostValue → HostValue)
    (f : List HostValue → HostValue → List HostValue) {e : ElementType} {item : Recipe}
    {storage addition : String} {empty : Expr} {container : Datum} {items : List Datum}
    {ms : List HostValue} (hsource : source.IsStable)
    (hw : eval env source = .ok (.datum container))
    (hcount : itemCount? container = some items.length)
    (hitems : ∀ i, itemAt? container i = items[i]?.map .datum)
    (hempty : ∀ env, eval env empty = .ok (.host (wrap [])))
    (hadd : ∀ acc m, Val.change (.host (wrap acc)) addition (.host m) =
      some (.host (wrap (f acc m))))
    (hlocal : item.LocalTo (.deref (.name (source.stem ++ "_iter"))))
    (hitem : ∀ env d m, eval env (.deref (.name (source.stem ++ "_iter"))) = .ok (.datum d) →
      Datum.Loads e d m → item.Yields env (.host m))
    (hms : List.Forall₂ (Datum.Loads e) items ms) :
    (loadItems source.stem storage addition source empty item).Yields env
      (.host (wrap (ms.foldl f []))) := by
  have hstem : (Expr.deref (.name (source.stem ++ "_iter"))).stem = source.stem ++ "_iter" :=
    stem_name_suffix (isStem_stem_expr source) iter_isSuffix
  rw [hms.length_eq] at hcount
  refine walk_yields hsource hw hcount hempty ?_
  intro i m acc env hm hi hp
  obtain ⟨d, hd, hload⟩ := forall₂_getElem? hms hm
  have hderef : eval env (.deref (.name (source.stem ++ "_iter"))) = .ok (.datum d) :=
    eval_deref (eval_name hi) (by simp only [Val.deref, hitems, hd, Option.map])
  obtain ⟨env₁, hrun, hres⟩ := hitem env d m hderef hload
  have hkeep : ∀ x, ¬ Extends (source.stem ++ "_iter") x → env₁ x = env x :=
    fun x hx => hlocal.keeps hrun (by rwa [hstem])
  have hp₁ : env₁ (source.stem ++ "_py") = some (.host (wrap acc)) := by
    rw [hkeep _ (iter_isSuffix.not_extends py_isSuffix), hp]
  refine ⟨_, hrun.append (runs_change hres hp₁ (hadd acc m)), bind_self _ _ _, ?_, ?_⟩
  · rw [bind_of_ne (append_ne (by decide)), hkeep _ (not_extends_self _), hi]
  · intro x hx
    have hxp : x ≠ source.stem ++ "_py" := fun h => hx (h ▸ py_isSuffix.extends)
    rw [bind_of_ne hxp, hkeep x fun h => hx (iter_isSuffix.extends.trans h)]

/-- A storage map is walked, and its entries are set in a dict. -/
theorem loadEntries_yields {kt vt : ElementType} {key value : Recipe} {storage : String}
    {entries : List (Datum × Datum)} {ms : List (HostValue × HostValue)}
    (hsource : source.IsStable) (hw : eval env source = .ok (.datum (.map entries)))
    (hkl : key.LocalTo (.attr (.deref (.name (source.stem ++ "_iter"))) "first"))
    (hvl : value.LocalTo (.attr (.deref (.name (source.stem ++ "_iter"))) "second"))
    (hkey : ∀ env d m, eval env (.attr (.deref (.name (source.stem ++ "_iter"))) "first") =
      .ok (.datum d) → Datum.Loads kt d m → key.Yields env (.host m))
    (hvalue : ∀ env d m, eval env (.attr (.deref (.name (source.stem ++ "_iter"))) "second") =
      .ok (.datum d) → Datum.Loads vt d m → value.Yields env (.host m))
    (hms : List.Forall₂ (fun d m => Datum.Loads kt d.1 m.1 ∧ Datum.Loads vt d.2 m.2)
      entries ms) :
    (loadEntries source.stem storage source key value).Yields env
      (.host (.dict (HostValue.placeAll Prod.fst HostValue.keepKey ms))) := by
  have hp := isStem_stem_expr source
  have hcount : itemCount? (.map entries) = some ms.length := by
    rw [← hms.length_eq]
    rfl
  refine walk_yields hsource hw hcount (fun _ => rfl) ?_
  intro i m acc env hm hi hpy
  obtain ⟨d, hd, hlk, hlv⟩ := forall₂_getElem? hms hm
  have hpart : ∀ {env : Env}, env (source.stem ++ "_iter") = some (.position (.map entries) i) →
      eval env (.deref (.name (source.stem ++ "_iter"))) = .ok (.entry d.1 d.2) :=
    fun hi => eval_deref (eval_name hi) (by simp only [Val.deref, itemAt?, hd, Option.map])
  have hnames : ∀ n ∈ names (.attr (.deref (.name (source.stem ++ "_iter"))) "first"),
      ¬ Extends (Expr.attr (.deref (.name (source.stem ++ "_iter"))) "second").stem n := by
    intro n hn
    rw [List.mem_singleton.mp hn, stem_second hp]
    exact second_isSuffix.not_extends_stem
  have hapart : ∀ n, Extends (Expr.attr (.deref (.name (source.stem ++ "_iter"))) "first").stem n →
      ¬ Extends (Expr.attr (.deref (.name (source.stem ++ "_iter"))) "second").stem n := by
    intro n hn
    rw [stem_first hp] at hn
    rw [stem_second hp]
    exact hn.not_of_suffix first_isSuffix second_isSuffix (by decide)
  obtain ⟨env₂, hrun, hresk, hresv, hboth⟩ := Yields.both hkl hvl hnames hapart
    (hkey env d.1 m.1 (eval_attr (hpart hi) rfl) hlk) fun env' he => by
      refine hvalue env' d.2 m.2 (eval_attr (hpart ?_) rfl) hlv
      rw [he _ (by rw [stem_first hp]; exact first_isSuffix.not_extends_stem), hi]
  have hkeep : ∀ x, ¬ Extends (source.stem ++ "_iter") x → env₂ x = env x := by
    intro x hx
    refine hboth x ?_ ?_
    · rw [stem_first hp]
      exact fun h => hx (first_isSuffix.extends.trans h)
    · rw [stem_second hp]
      exact fun h => hx (second_isSuffix.extends.trans h)
  have hpy₂ : env₂ (source.stem ++ "_py") = some (.host (.dict acc)) := by
    rw [hkeep _ (iter_isSuffix.not_extends py_isSuffix), hpy]
  refine ⟨_, hrun.append (runs_put hresk hresv hpy₂ rfl), bind_self _ _ _, ?_, ?_⟩
  · rw [bind_of_ne (append_ne (by decide)), hkeep _ (not_extends_self _), hi]
  · intro x hx
    have hxp : x ≠ source.stem ++ "_py" := fun h => hx (h ▸ py_isSuffix.extends)
    rw [bind_of_ne hxp, hkeep x fun h => hx (iter_isSuffix.extends.trans h)]

end Code.Recipe

/-! ## Every type -/

namespace Catalog

variable {source : Expr} {env : Env} {r : Recipe} {d : Datum}

theorem toHost_primitive_yields {p : Primitive} {m : HostValue}
    (h : builtin.toHost source (.primitive p) = .ok r)
    (hw : eval env source = .ok (.datum d)) (hm : d.Loads (.primitive p) m) :
    r.Yields env (.host m) := by
  obtain ⟨ht, v, hv, rfl⟩ := hm
  cases d with
  | str s =>
    cases p with
    | str =>
      rw [toHost_str] at h
      cases h
      cases hv
      have hc : eval env (.cast "char *" (source.method "c_str" [])) = .ok (.bytes s) :=
        eval_cast (eval_method hw rfl) rfl
      exact ⟨env, Runs.nil, eval_method (eval_call (evalAll_cons hc rfl) rfl) rfl⟩
    | _ => cases ht
  | integer k n =>
    have hp : p.isInteger = true ∧ p ≠ .str ∧ p ≠ .complex128 := by
      cases p with
      | str => cases ht
      | float32 => cases ht
      | float64 => cases ht
      | complex128 => cases ht
      | _ => exact ⟨rfl, by decide, by decide⟩
    rw [toHost_call source hp.2.1 hp.2.2, if_pos hp.1] at h
    cases h
    cases hv
    exact ⟨env, Runs.nil, eval_call (evalAll_cons hw rfl) rfl⟩
  | float32 x =>
    cases p with
    | float32 =>
      cases h
      cases hv
      exact ⟨env, Runs.nil, eval_call (evalAll_cons hw rfl) rfl⟩
    | _ => cases ht
  | float64 x =>
    cases p with
    | float64 =>
      cases h
      cases hv
      exact ⟨env, Runs.nil, eval_call (evalAll_cons hw rfl) rfl⟩
    | _ => cases ht
  | complex re im =>
    cases p with
    | complex128 =>
      rw [toHost_complex] at h
      cases h
      cases hv
      have hre : eval env (.callName "float" [.attr source "re"]) = .ok (.host (.float re)) :=
        eval_call (evalAll_cons (eval_attr hw rfl) rfl) rfl
      have him : eval env (.callName "float" [.attr source "im"]) = .ok (.host (.float im)) :=
        eval_call (evalAll_cons (eval_attr hw rfl) rfl) rfl
      exact ⟨env, Runs.nil, eval_call (evalAll_cons hre (evalAll_cons him rfl)) rfl⟩
    | _ => cases ht
  | vector _ => cases ht
  | set _ => cases ht
  | map _ => cases ht

/-- Run on a storage value of a type, the code for the type gives the host value
that the storage value converts to, merged. -/
theorem toHost_yields : ∀ (t : ElementType) {source : Expr} {env : Env} {r : Recipe}
    {d : Datum} {m : HostValue}, source.IsStable → builtin.toHost source t = .ok r →
    eval env source = .ok (.datum d) → d.Loads t m → r.Yields env (.host m)
  | .primitive p, source, env, r, d, m, _, h, hw, hm => toHost_primitive_yields h hw hm
  | .vector e, source, env, r, d, m, hsource, h, hw, hm => by
    obtain ⟨storage, -, h⟩ := bind_eq_ok h
    obtain ⟨item, hi, h⟩ := bind_eq_ok h
    cases h
    obtain ⟨ht, v, hv, rfl⟩ := hm
    cases d with
    | vector items =>
      obtain ⟨vs, hvs, hv⟩ := bind_eq_ok hv
      cases hv
      have hfold : HostValue.mergedAll vs =
          (HostValue.mergedAll vs).foldl (fun acc m => acc ++ [m]) [] := by
        rw [foldl_append_singleton, List.nil_append]
      show Recipe.Yields _ env (.host (.list (HostValue.mergedAll vs)))
      rw [hfold]
      exact Recipe.loadItems_yields .list (fun acc m => acc ++ [m]) hsource hw rfl
        (fun _ => rfl) (fun _ => rfl) (fun _ _ => rfl) (toHost_localTo hi)
        (fun env d m hd hm => toHost_yields e (Expr.isStable_deref _) hi hd hm)
        (Datum.loads_items ht hvs)
    | _ => cases ht
  | .set e, source, env, r, d, m, hsource, h, hw, hm => by
    obtain ⟨storage, -, h⟩ := bind_eq_ok h
    obtain ⟨item, hi, h⟩ := bind_eq_ok h
    cases h
    obtain ⟨ht, v, hv, rfl⟩ := hm
    cases d with
    | set items =>
      obtain ⟨vs, hvs, hv⟩ := bind_eq_ok hv
      cases hv
      exact Recipe.loadItems_yields .set
        (fun acc m => HostValue.place id HostValue.keepFirst m acc) hsource hw rfl
        (fun _ => rfl) (fun _ => rfl) (fun _ _ => rfl) (toHost_localTo hi)
        (fun env d m hd hm => toHost_yields e (Expr.isStable_deref _) hi hd hm)
        (Datum.loads_items ht hvs)
    | _ => cases ht
  | .map k t, source, env, r, d, m, hsource, h, hw, hm => by
    obtain ⟨storage, -, h⟩ := bind_eq_ok h
    obtain ⟨key, hk, h⟩ := bind_eq_ok h
    obtain ⟨value, hvl, h⟩ := bind_eq_ok h
    cases h
    obtain ⟨ht, v, hv, rfl⟩ := hm
    have hp := isStem_stem_expr source
    cases d with
    | map entries =>
      obtain ⟨es, hes, hv⟩ := bind_eq_ok hv
      cases hv
      exact Recipe.loadEntries_yields hsource hw (toHost_localTo hk) (toHost_localTo hvl)
        (fun env d m hd hm => toHost_yields k (Expr.isStable_first hp) hk hd hm)
        (fun env d m hd hm => toHost_yields t (Expr.isStable_second hp) hvl hd hm)
        (Datum.loads_entries ht hes)
    | _ => cases ht

end Catalog

end WrapGen
