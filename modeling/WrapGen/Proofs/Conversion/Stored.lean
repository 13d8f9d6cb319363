import WrapGen.Proofs.Conversion.Recipes

/-!
# Code that makes storage values

Run on a host value that converts to a type, the code for the type ends, and
its result is the converted value.

The proof is by induction on the type. The loop of a container has as its
invariant that `stem_cpp` holds what the items so far convert to; the code of
the items keeps `stem_cpp`, as it does not extend `stem_item`, and of an entry
the code of the value keeps the result of the key.

* `toStorage_yields`: the main statement.
-/
namespace WrapGen

open Binary Code Execution Text

namespace Code.Recipe

/-- The code ends, and its result is a value. -/
def Yields (r : Recipe) (env : Env) (v : Val) : Prop :=
  ∃ env', Runs r.setup env env' ∧ eval env' r.result = .ok v

/-- Two codes run one after the other. The code of the value keeps the result of the
key if it does not change the source of the key or a name that extends its stem. -/
theorem Yields.both {key value : Recipe} {a b : Expr} {env : Env} {x y : Val}
    (hkl : key.LocalTo a) (hvl : value.LocalTo b) (hnames : ∀ n ∈ names a, ¬ Extends b.stem n)
    (hapart : ∀ n, Extends a.stem n → ¬ Extends b.stem n) (hk : key.Yields env x)
    (hv : ∀ env', (∀ n, ¬ Extends a.stem n → env' n = env n) → value.Yields env' y) :
    ∃ env', Runs (key.setup ++ value.setup) env env' ∧ eval env' key.result = .ok x ∧
      eval env' value.result = .ok y ∧
      ∀ n, ¬ Extends a.stem n → ¬ Extends b.stem n → env' n = env n := by
  obtain ⟨env₁, hrunk, hresk⟩ := hk
  have hkeepk : ∀ n, ¬ Extends a.stem n → env₁ n = env n := fun n hn => hkl.keeps hrunk hn
  obtain ⟨env₂, hrunv, hresv⟩ := hv env₁ hkeepk
  have hkeepv : ∀ n, ¬ Extends b.stem n → env₂ n = env₁ n := fun n hn => hvl.keeps hrunv hn
  refine ⟨env₂, hrunk.append hrunv, ?_, hresv, fun n ha hb => ?_⟩
  · rw [hkl.eval_result (fun n hn => hkeepv n (hnames n hn)) fun n hn => hkeepv n (hapart n hn),
      hresk]
  · rw [hkeepv n hb, hkeepk n ha]

end Code.Recipe

/-! ## Lists built item by item -/

theorem foldl_append_singleton {α : Type} : ∀ xs acc : List α,
    xs.foldl (fun acc x => acc ++ [x]) acc = acc ++ xs
  | [], acc => (List.append_nil acc).symm
  | x :: xs, acc => by
    rw [List.foldl_cons, foldl_append_singleton xs, List.append_assoc, List.singleton_append]

/-! ## Empty containers -/

namespace Execution

theorem isPrefixOf_append (p s : String) : p.toList.isPrefixOf (p ++ s).toList = true := by
  rw [String.toList_append, List.isPrefixOf_iff_prefix]
  exact List.prefix_append _ _

theorem emptyContainer_vector {e : ElementType} {storage : String}
    (h : Catalog.builtin.storageType (.vector e) = .ok storage) :
    emptyContainer? storage = some (.vector []) := by
  obtain ⟨x, -, h⟩ := bind_eq_ok h
  cases h
  show emptyContainer? ("cpp_vector[" ++ x ++ "]") = _
  rw [String.append_assoc, emptyContainer?, if_pos (isPrefixOf_append _ _)]

theorem emptyContainer_set {e : ElementType} {storage : String}
    (h : Catalog.builtin.storageType (.set e) = .ok storage) :
    emptyContainer? storage = some (.set []) := by
  obtain ⟨x, -, h⟩ := bind_eq_ok h
  cases h
  have hv : ("cpp_vector[".toList.isPrefixOf ("cpp_set[" ++ (x ++ "]")).toList) = false := by
    rw [String.toList_append]
    rfl
  show emptyContainer? ("cpp_set[" ++ x ++ "]") = _
  rw [String.append_assoc, emptyContainer?, if_neg (by rw [hv]; decide),
    if_pos (isPrefixOf_append _ _)]

theorem emptyContainer_map {k v : ElementType} {storage : String}
    (h : Catalog.builtin.storageType (.map k v) = .ok storage) :
    emptyContainer? storage = some (.map []) := by
  obtain ⟨x, -, h⟩ := bind_eq_ok h
  obtain ⟨y, -, h⟩ := bind_eq_ok h
  cases h
  have hv : ("cpp_vector[".toList.isPrefixOf
      ("cpp_map[" ++ (x ++ (", " ++ (y ++ "]")))).toList) = false := by
    rw [String.toList_append]
    rfl
  have hs : ("cpp_set[".toList.isPrefixOf
      ("cpp_map[" ++ (x ++ (", " ++ (y ++ "]")))).toList) = false := by
    rw [String.toList_append]
    rfl
  show emptyContainer? ("cpp_map[" ++ x ++ ", " ++ y ++ "]") = _
  simp only [String.append_assoc]
  rw [emptyContainer?, if_neg (by rw [hv]; decide), if_neg (by rw [hs]; decide),
    if_pos (isPrefixOf_append _ _)]

/-- The constructor of a storage container makes an empty one. -/
theorem eval_empty {env : Env} {storage : String} {d : Datum}
    (h : emptyContainer? storage = some d) :
    eval env (.callName storage []) = .ok (.datum d) := by
  have hset : storage ≠ "set" := by
    rintro rfl
    rw [show emptyContainer? "set" = none by decide] at h
    cases h
  have hc : callFunction storage [] = some (.datum d) := by
    rw [callFunction, h]
    · rfl
    · exact hset
  exact eval_call rfl hc

end Execution

/-! ## Containers -/

namespace Code.Recipe

variable {source : Expr} {env : Env}

/-- A storage container is filled with what the items convert to, in order. -/
theorem storeItems_yields (wrap : List Datum → Datum) (f : List Datum → Datum → List Datum)
    {e : ElementType} {item : Recipe} {storage insertion : String} {w : Val}
    {vs : List HostValue} {ds : List Datum} (hsource : source.IsStable)
    (hempty : emptyContainer? storage = some (wrap []))
    (hinsert : ∀ acc d, Val.change (.datum (wrap acc)) insertion (.datum d) =
      some (.datum (wrap (f acc d))))
    (hlocal : item.LocalTo (.name (source.stem ++ "_item")))
    (hitem : ∀ env v d, eval env (.name (source.stem ++ "_item")) = .ok (.host v) →
      e.toDatum v = .ok d → item.Yields env (.datum d))
    (hw : eval env source = .ok w) (hvs : w.items = some (vs.map .host))
    (hds : List.Forall₂ (fun v d => e.toDatum v = .ok d) vs ds) :
    (storeItems source.stem storage insertion source item).Yields env
      (.datum (wrap (ds.foldl f []))) := by
  have hcpp : ¬ Extends (Expr.name (source.stem ++ "_item")).stem (source.stem ++ "_cpp") := by
    rw [stem_name_suffix (isStem_stem_expr source) item_isSuffix]
    exact item_isSuffix.not_extends cpp_isSuffix
  -- the empty container
  have hstart : Runs [.assign (.name (source.stem ++ "_cpp")) (.callName storage [])] env
      (env.bind (source.stem ++ "_cpp") (.datum (wrap []))) :=
    runs_assign (eval_empty hempty) rfl
  have hw' : eval (env.bind (source.stem ++ "_cpp") (.datum (wrap []))) source = .ok w := by
    rw [hsource.eval_eq fun x hx => ?_, hw]
    exact bind_of_ne fun h => hx (h ▸ cpp_isSuffix.extends)
  -- one item
  have hstep : ∀ (v : Val) (d : Datum) (acc : List Datum) (env : Env),
      (∃ h, v = .host h ∧ e.toDatum h = .ok d) →
      env (source.stem ++ "_cpp") = some (.datum (wrap acc)) →
      ∃ env₁ env₂, bindTargets [source.stem ++ "_item"] v env = some env₁ ∧
        Runs (item.setup ++
          [Stmt.expr ((Expr.name (source.stem ++ "_cpp")).method insertion [item.result])])
          env₁ env₂ ∧
        env₂ (source.stem ++ "_cpp") = some (.datum (wrap (f acc d))) := by
    rintro v d acc env ⟨h, rfl, hd⟩ hacc
    obtain ⟨env₁, hrun, hres⟩ := hitem (env.bind (source.stem ++ "_item") (.host h)) h d
      (by simp [eval, given]) hd
    have hkeep : env₁ (source.stem ++ "_cpp") = some (.datum (wrap acc)) := by
      rw [hlocal.keeps hrun hcpp, bind_of_ne (append_ne (by decide)), hacc]
    exact ⟨_, _, rfl, hrun.append (runs_change hres hkeep (hinsert acc d)), bind_self _ _ _⟩
  have hforall : List.Forall₂ (fun v d => ∃ h, v = Val.host h ∧ e.toDatum h = .ok d)
      (vs.map .host) ds := by
    rw [List.forall₂_map_left_iff]
    exact hds.imp fun h d hd => ⟨h, rfl, hd⟩
  obtain ⟨env', hrun, hacc⟩ := runs_forEach (fun acc env =>
    env (source.stem ++ "_cpp") = some (.datum (wrap acc))) hw' hvs hforall hstep (bind_self _ _ _)
  exact ⟨env', hstart.cons hrun, eval_name hacc⟩

/-- One entry is converted and put in the map. -/
theorem storeEntry_step {kt vt : ElementType} {key value : Recipe} {a b : HostValue}
    {d : Datum × Datum} {acc : List (Datum × Datum)}
    (hkl : key.LocalTo (.name (source.stem ++ "_key")))
    (hvl : value.LocalTo (.name (source.stem ++ "_val")))
    (hkey : ∀ env v d, eval env (.name (source.stem ++ "_key")) = .ok (.host v) →
      kt.toDatum v = .ok d → key.Yields env (.datum d))
    (hvalue : ∀ env v d, eval env (.name (source.stem ++ "_val")) = .ok (.host v) →
      vt.toDatum v = .ok d → value.Yields env (.datum d))
    (hda : kt.toDatum a = .ok d.1) (hdb : vt.toDatum b = .ok d.2)
    (hacc : env (source.stem ++ "_cpp") = some (.datum (.map acc))) :
    ∃ env', Runs (key.setup ++ value.setup ++
        [.assign (.index (.name (source.stem ++ "_cpp")) key.result) value.result])
        ((env.bind (source.stem ++ "_key") (.host a)).bind (source.stem ++ "_val") (.host b)) env' ∧
      env' (source.stem ++ "_cpp") = some (.datum (.map (Ordered.insert Prod.fst d acc))) := by
  have hp := isStem_stem_expr source
  have hk : (Expr.name (source.stem ++ "_key")).stem = source.stem ++ "_key" :=
    stem_name_suffix hp key_isSuffix
  have hv : (Expr.name (source.stem ++ "_val")).stem = source.stem ++ "_val" :=
    stem_name_suffix hp val_isSuffix
  have hka : ((env.bind (source.stem ++ "_key") (.host a)).bind (source.stem ++ "_val")
      (.host b)) (source.stem ++ "_key") = some (.host a) := by
    rw [bind_of_ne (append_ne (by decide)), bind_self]
  have hnames : ∀ n ∈ names (.name (source.stem ++ "_key")),
      ¬ Extends (Expr.name (source.stem ++ "_val")).stem n := by
    intro n hn
    rw [List.mem_singleton.mp hn, hv]
    exact val_isSuffix.not_extends key_isSuffix
  have hapart : ∀ n, Extends (Expr.name (source.stem ++ "_key")).stem n →
      ¬ Extends (Expr.name (source.stem ++ "_val")).stem n := by
    intro n hn
    rw [hk] at hn
    rw [hv]
    exact hn.not_of_suffix key_isSuffix val_isSuffix (by decide)
  obtain ⟨env₁, hrun, hresk, hresv, hkeep⟩ := Yields.both hkl hvl hnames hapart
    (hkey _ a d.1 (eval_name hka) hda) fun env' he => by
      refine hvalue env' b d.2 (eval_name ?_) hdb
      rw [he _ (by rw [hk]; exact key_isSuffix.not_extends val_isSuffix), bind_self]
  have hcpp : env₁ (source.stem ++ "_cpp") = some (.datum (.map acc)) := by
    rw [hkeep _ (by rw [hk]; exact key_isSuffix.not_extends cpp_isSuffix)
        (by rw [hv]; exact val_isSuffix.not_extends cpp_isSuffix),
      bind_of_ne (append_ne (by decide)), bind_of_ne (append_ne (by decide)), hacc]
  exact ⟨_, hrun.append (runs_put hresk hresv hcpp rfl), bind_self _ _ _⟩

/-- A storage map is filled with what the entries convert to, in order. -/
theorem storeEntries_yields {kt vt : ElementType} {key value : Recipe} {storage : String}
    {es : List (HostValue × HostValue)} {ds : List (Datum × Datum)} (hsource : source.IsStable)
    (hempty : emptyContainer? storage = some (.map []))
    (hkl : key.LocalTo (.name (source.stem ++ "_key")))
    (hvl : value.LocalTo (.name (source.stem ++ "_val")))
    (hkey : ∀ env v d, eval env (.name (source.stem ++ "_key")) = .ok (.host v) →
      kt.toDatum v = .ok d → key.Yields env (.datum d))
    (hvalue : ∀ env v d, eval env (.name (source.stem ++ "_val")) = .ok (.host v) →
      vt.toDatum v = .ok d → value.Yields env (.datum d))
    (hw : eval env source = .ok (.host (.dict es)))
    (hds : List.Forall₂ (fun e d => kt.toDatum e.1 = .ok d.1 ∧ vt.toDatum e.2 = .ok d.2) es ds) :
    (storeEntries source.stem storage source key value).Yields env
      (.datum (.map (Ordered.ofList Prod.fst ds))) := by
  -- the empty map
  have hstart : Runs [.assign (.name (source.stem ++ "_cpp")) (.callName storage [])] env
      (env.bind (source.stem ++ "_cpp") (.datum (.map []))) :=
    runs_assign (eval_empty hempty) rfl
  have hw' : eval (env.bind (source.stem ++ "_cpp") (.datum (.map []))) (source.method "items" [])
      = .ok (.host (.list (es.map fun e => .tuple [e.1, e.2]))) := by
    have hs : eval (env.bind (source.stem ++ "_cpp") (.datum (.map []))) source =
        .ok (.host (.dict es)) := by
      rw [hsource.eval_eq fun x hx => ?_, hw]
      exact bind_of_ne fun h => hx (h ▸ cpp_isSuffix.extends)
    exact eval_method hs rfl
  -- one entry
  have hstep : ∀ (v : Val) (d : Datum × Datum) (acc : List (Datum × Datum)) (env : Env),
      (∃ a b, v = .host (.tuple [a, b]) ∧ kt.toDatum a = .ok d.1 ∧ vt.toDatum b = .ok d.2) →
      env (source.stem ++ "_cpp") = some (.datum (.map acc)) →
      ∃ env₁ env₂,
        bindTargets [source.stem ++ "_key", source.stem ++ "_val"] v env = some env₁ ∧
        Runs (key.setup ++ value.setup ++
          [Stmt.assign (.index (.name (source.stem ++ "_cpp")) key.result) value.result])
          env₁ env₂ ∧
        env₂ (source.stem ++ "_cpp") =
          some (.datum (.map (Ordered.insert Prod.fst d acc))) := by
    rintro v d acc env ⟨a, b, rfl, hda, hdb⟩ hacc
    obtain ⟨env', hrun, hres⟩ := storeEntry_step hkl hvl hkey hvalue hda hdb hacc
    exact ⟨_, env', rfl, hrun, hres⟩
  have hforall : List.Forall₂ (fun v d => ∃ a b, v = Val.host (.tuple [a, b]) ∧
      kt.toDatum a = .ok d.1 ∧ vt.toDatum b = .ok d.2)
      ((es.map fun e => HostValue.tuple [e.1, e.2]).map Val.host) ds := by
    rw [List.map_map, List.forall₂_map_left_iff]
    exact hds.imp fun e d h => ⟨e.1, e.2, rfl, h.1, h.2⟩
  obtain ⟨env', hrun, hacc⟩ := runs_forEach (fun acc env =>
    env (source.stem ++ "_cpp") = some (.datum (.map acc))) hw' rfl hforall hstep (bind_self _ _ _)
  exact ⟨env', hstart.cons hrun, eval_name hacc⟩

end Code.Recipe

/-! ## Primitives -/

namespace Execution

theorem fieldsOf_ofFields (re im : Option Double) :
    Val.fieldsOf (some (Val.ofFields re im)) = (re, im) := by
  cases re <;> cases im <;> rfl

theorem setField_re {old : Option Val} {v : Val} {a : Double} (h : v.toDouble? = some a) :
    Val.setField old "re" v = some (Val.ofFields (some a) (Val.fieldsOf old).2) := by
  simp only [Val.setField, h]

theorem setField_im {old : Option Val} {v : Val} {b : Double} (h : v.toDouble? = some b) :
    Val.setField old "im" v = some (Val.ofFields (Val.fieldsOf old).1 (some b)) := by
  simp only [Val.setField, h]

/-- A number has the two parts of the complex number that it is stored as. -/
theorem parts_of_toDatum {v : HostValue} {d : Datum}
    (h : Primitive.complex128.toDatum v = .ok d) : ∃ x y a b,
    (Val.host v).field "real" = some x ∧ x.toDouble? = some a ∧
    (Val.host v).field "imag" = some y ∧ y.toDouble? = some b ∧ d = .complex a b := by
  cases v with
  | complex re im => cases h; exact ⟨_, _, _, _, rfl, rfl, rfl, rfl, rfl⟩
  | float x => cases h; exact ⟨_, _, _, _, rfl, rfl, rfl, rfl, rfl⟩
  | int n =>
    cases h
    exact ⟨_, _, _, _, rfl, rfl, rfl, rfl, rfl⟩
  | _ => cases h

end Execution

namespace Catalog

variable {source : Expr} {env : Env} {r : Recipe} {v : HostValue} {d : Datum}

theorem strToStorage_yields (h : builtin.toStorage source (.primitive .str) = .ok r)
    (hv : eval env source = .ok (.host v)) (hd : Primitive.str.toDatum v = .ok d) :
    r.Yields env (.datum d) := by
  rw [toStorage_str] at h
  cases h
  cases v with
  | str s =>
    cases hd
    refine ⟨env.bind (source.stem ++ "_" ++ "bytes") (.bytes s), ?_, ?_⟩
    · exact runs_assign (eval_method hv rfl) rfl
    · exact eval_construct (evalAll_cons (eval_cast (eval_name (bind_self _ _ _)) rfl) rfl) rfl
  | int n => cases hd
  | _ => cases hd

/-- The two fields of a complex number are set one after the other. -/
theorem complexToStorage_yields (hsource : source.IsStable)
    (h : builtin.toStorage source (.primitive .complex128) = .ok r)
    (hv : eval env source = .ok (.host v)) (hd : Primitive.complex128.toDatum v = .ok d) :
    r.Yields env (.datum d) := by
  rw [toStorage_complex] at h
  cases h
  obtain ⟨x, y, a, b, hx, ha, hy, hb, rfl⟩ := parts_of_toDatum hd
  let proxy := source.stem ++ "_" ++ "proxy"
  let re := Val.ofFields (some a) (Val.fieldsOf (env proxy)).2
  have hfirst : Runs [.assign (.attr (.name proxy) "re") (.attr source "real")] env
      (env.bind proxy re) := by
    refine runs_assign (eval_attr hv hx) ?_
    simp only [assign, setField_re ha, given, bind, Except.bind, pure, Except.pure, re]
  have hv' : eval (env.bind proxy re) source = .ok (.host v) := by
    rw [hsource.eval_eq fun z hz => ?_, hv]
    exact bind_of_ne fun h => hz (h ▸ extends_of_word _ (by decide))
  have hsecond : Runs [.assign (.attr (.name proxy) "im") (.attr source "imag")]
      (env.bind proxy re) ((env.bind proxy re).bind proxy (.datum (.complex a b))) := by
    refine runs_assign (eval_attr hv' hy) ?_
    simp only [assign, bind_self, setField_im hb, re, fieldsOf_ofFields, given, bind, Except.bind,
      pure, Except.pure]
    rfl
  exact ⟨_, hfirst.cons hsecond, eval_name (bind_self _ _ _)⟩

theorem toStorage_primitive_yields {p : Primitive} (hsource : source.IsStable)
    (h : builtin.toStorage source (.primitive p) = .ok r)
    (hv : eval env source = .ok (.host v)) (hd : p.toDatum v = .ok d) :
    r.Yields env (.datum d) := by
  by_cases hs : p = .str
  · subst hs
    exact strToStorage_yields h hv hd
  · by_cases hc : p = .complex128
    · subst hc
      exact complexToStorage_yields hsource h hv hd
    · obtain ⟨type, ht, h'⟩ := toStorage_cast source hs hc
      rw [h] at h'
      cases h'
      refine ⟨env, Runs.nil, eval_cast hv ?_⟩
      simp only [bind, Except.bind, Val.castTo, ht, given, hd]

/-! ## Every type -/

/-- A vector is made from the items of a list or of a tuple. -/
theorem items_of_toDatum_vector {e : ElementType} (h : (ElementType.vector e).toDatum v = .ok d) :
    ∃ vs ds, (Val.host v).items = some (vs.map .host) ∧
      List.Forall₂ (fun v d => e.toDatum v = .ok d) vs ds ∧ d = .vector ds := by
  cases v with
  | list items =>
    obtain ⟨ds, hds, h⟩ := bind_eq_ok h
    cases h
    exact ⟨items, ds, rfl, forall₂_of_mapM hds, rfl⟩
  | tuple items =>
    obtain ⟨ds, hds, h⟩ := bind_eq_ok h
    cases h
    exact ⟨items, ds, rfl, forall₂_of_mapM hds, rfl⟩
  | _ => cases h

/-- Run on a value that converts to a type, the code for the type gives what it
converts to. -/
theorem toStorage_yields : ∀ (t : ElementType) {source : Expr} {env : Env} {r : Recipe}
    {v : HostValue} {d : Datum}, source.IsStable → builtin.toStorage source t = .ok r →
    eval env source = .ok (.host v) → t.toDatum v = .ok d → r.Yields env (.datum d)
  | .primitive p, source, env, r, v, d, hsource, h, hv, hd =>
    toStorage_primitive_yields hsource h hv (by rwa [ElementType.toDatum] at hd)
  | .vector e, source, env, r, v, d, hsource, h, hv, hd => by
    obtain ⟨storage, hs, h⟩ := bind_eq_ok h
    obtain ⟨item, hi, h⟩ := bind_eq_ok h
    cases h
    obtain ⟨vs, ds, hvs, hds, rfl⟩ := items_of_toDatum_vector hd
    have hfold : ds = ds.foldl (fun acc d => acc ++ [d]) [] := by
      rw [foldl_append_singleton, List.nil_append]
    rw [hfold]
    exact Recipe.storeItems_yields .vector (fun acc d => acc ++ [d]) hsource
      (emptyContainer_vector hs) (fun _ _ => rfl) (toStorage_localTo hi)
      (fun env v d hv hd => toStorage_yields e (Expr.isStable_name _) hi hv hd) hv hvs hds
  | .set e, source, env, r, v, d, hsource, h, hv, hd => by
    obtain ⟨storage, hs, h⟩ := bind_eq_ok h
    obtain ⟨item, hi, h⟩ := bind_eq_ok h
    cases h
    cases v with
    | set items =>
      obtain ⟨ds, hds, hd⟩ := bind_eq_ok hd
      cases hd
      exact Recipe.storeItems_yields .set (fun acc d => Ordered.insert id d acc) hsource
        (emptyContainer_set hs) (fun _ _ => rfl) (toStorage_localTo hi)
        (fun env v d hv hd => toStorage_yields e (Expr.isStable_name _) hi hv hd) hv rfl
        (forall₂_of_mapM hds)
    | _ => cases hd
  | .map k t, source, env, r, v, d, hsource, h, hv, hd => by
    obtain ⟨storage, hs, h⟩ := bind_eq_ok h
    obtain ⟨key, hk, h⟩ := bind_eq_ok h
    obtain ⟨value, hvl, h⟩ := bind_eq_ok h
    cases h
    cases v with
    | dict entries =>
      obtain ⟨ds, hds, hd⟩ := bind_eq_ok hd
      cases hd
      refine Recipe.storeEntries_yields hsource (emptyContainer_map hs) (toStorage_localTo hk)
        (toStorage_localTo hvl)
        (fun env v d hv hd => toStorage_yields k (Expr.isStable_name _) hk hv hd)
        (fun env v d hv hd => toStorage_yields t (Expr.isStable_name _) hvl hv hd) hv ?_
      refine (forall₂_of_mapM hds).imp fun e d he => ?_
      obtain ⟨a, ha, he⟩ := bind_eq_ok he
      obtain ⟨b, hb, he⟩ := bind_eq_ok he
      cases he
      exact ⟨ha, hb⟩
    | _ => cases hd

end Catalog

end WrapGen
