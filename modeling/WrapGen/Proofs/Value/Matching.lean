import Mathlib.Data.List.Perm.Basic
import WrapGen.Proofs.Results
import WrapGen.Proofs.Value.Lookup

/-!
# Values that storage keeps

A value is kept as a datum if it is converted to the datum and what the datum is
converted to equals the value in the host language. Storage may hold the items
of a set or the entries of a dict in another order, which the equality of the
host does not see.

* `Matches.list`, `Matches.set`, `Matches.dict`: equality of composites from
  equality of their parts.
* `StoredAs.list`, `StoredAs.set`, `StoredAs.dict`: a composite of kept values is
  kept if the stored forms of its items or keys are distinct.
-/
namespace WrapGen

/-! ## Equal values -/

namespace HostValue

/-- Two values are equal from either side. -/
def Matches (v w : HostValue) : Prop := ∀ fromSecond, v.agrees fromSecond w = true

theorem hasMember_iff {xs : List HostValue} {y : HostValue} :
    hasMember xs y = true ↔ ∃ x ∈ xs, x.agrees false y = true := by
  induction xs with
  | nil => simp [hasMember]
  | cons x xs ih => simp [hasMember, ih]

theorem eachIsMember_iff {xs ys : List HostValue} :
    eachIsMember xs ys = true ↔ ∀ x ∈ xs, ∃ y ∈ ys, x.agrees true y = true := by
  induction xs with
  | nil => simp [eachIsMember]
  | cons x xs ih => simp [eachIsMember, ih]

theorem hasEntry_iff {ps : List (HostValue × HostValue)} {q : HostValue × HostValue} :
    hasEntry ps q = true ↔
      ∃ p ∈ ps, p.1.agrees true q.1 = true ∧ p.2.agrees true q.2 = true := by
  induction ps with
  | nil => simp [hasEntry]
  | cons p ps ih => simp [hasEntry, ih]

theorem eachIsEntry_iff {ps qs : List (HostValue × HostValue)} :
    eachIsEntry ps qs = true ↔
      ∀ p ∈ ps, ∃ q ∈ qs, p.1.agrees false q.1 = true ∧ p.2.agrees false q.2 = true := by
  induction ps with
  | nil => simp [eachIsEntry]
  | cons p ps ih => simp [eachIsEntry, ih]

theorem Matches.list {vs ws : List HostValue} (h : List.Forall₂ Matches vs ws) :
    Matches (.list vs) (.list ws) := by
  intro fromSecond
  show agreeAll fromSecond vs ws = true
  induction h with
  | nil => rfl
  | cons hv _ ih => rw [agreeAll, hv fromSecond, ih]; rfl

/-- The order of the members does not count. -/
theorem Matches.set {vs ws us : List HostValue} (h : List.Forall₂ Matches vs ws)
    (horder : ws.Perm us) : Matches (.set vs) (.set us) := by
  have hlength : vs.length = us.length := h.length_eq.trans horder.length_eq
  intro fromSecond
  rw [agrees, hlength, beq_self_eq_true, Bool.true_and]
  cases fromSecond with
  | true =>
    rw [if_pos rfl, List.all_eq_true]
    intro u hu
    obtain ⟨v, hv, hm⟩ := forall₂_mem_right h (horder.mem_iff.mpr hu)
    exact hasMember_iff.mpr ⟨v, hv, hm false⟩
  | false =>
    refine eachIsMember_iff.mpr fun v hv => ?_
    obtain ⟨w, hw, hm⟩ := forall₂_mem_left h hv
    exact ⟨w, horder.mem_iff.mp hw, hm true⟩

/-- The order of the entries does not count. -/
theorem Matches.dict {ps qs rs : List (HostValue × HostValue)}
    (h : List.Forall₂ (fun p q => Matches p.1 q.1 ∧ Matches p.2 q.2) ps qs)
    (horder : qs.Perm rs) : Matches (.dict ps) (.dict rs) := by
  have hlength : ps.length = rs.length := h.length_eq.trans horder.length_eq
  intro fromSecond
  rw [agrees, hlength, beq_self_eq_true, Bool.true_and]
  cases fromSecond with
  | true =>
    rw [if_pos rfl, List.all_eq_true]
    intro r hr
    obtain ⟨p, hp, hk, hv⟩ := forall₂_mem_right h (horder.mem_iff.mpr hr)
    exact hasEntry_iff.mpr ⟨p, hp, hk true, hv true⟩
  | false =>
    refine eachIsEntry_iff.mpr fun p hp => ?_
    obtain ⟨q, hq, hk, hv⟩ := forall₂_mem_left h hp
    exact ⟨q, horder.mem_iff.mp hq, hk false, hv false⟩

end HostValue

/-! ## Lists converted item by item -/

theorem Datum.toHostAll_eq_mapM (t : ElementType) : ∀ ds : List Datum,
    toHostAll ds t = ds.mapM (toHost · t)
  | [] => rfl
  | d :: ds => by
    rw [toHostAll, toHostAll_eq_mapM t ds, List.mapM_cons]

theorem Datum.toHostEntries_eq_mapM (k t : ElementType) : ∀ es : List (Datum × Datum),
    toHostEntries es k t = es.mapM fun e => do
      let key ← e.1.toHost k
      let value ← e.2.toHost t
      return (key, value)
  | [] => rfl
  | (a, b) :: es => by
    rw [toHostEntries, toHostEntries_eq_mapM k t es, List.mapM_cons]
    simp only [bind_assoc, pure_bind]

open Code in
theorem HostValue.ofLiterals_eq_map : ∀ ls : List Literal, ofLiterals ls = ls.map ofLiteral
  | [] => rfl
  | l :: ls => by rw [ofLiterals, ofLiterals_eq_map ls, List.map_cons]

open Code in
theorem HostValue.ofPairs_eq_map : ∀ ps : List (Literal × Literal),
    ofPairs ps = ps.map (Prod.map ofLiteral ofLiteral)
  | [] => rfl
  | (k, v) :: ps => by
    rw [ofPairs, ofPairs_eq_map ps]
    rfl

/-! ## Kept values -/

/-- The value `v` is kept as the datum `d` of the type `t`. -/
structure StoredAs (t : ElementType) (v : HostValue) (d : Datum) : Prop where
  accepted : Catalog.builtin.acceptsValue v t = .ok true
  stored : t.toDatum v = .ok d
  shown : ∃ w, d.toHost t = .ok w ∧ w.Matches v

theorem Catalog.acceptsValue_none (t : ElementType) : builtin.acceptsValue .none t = .ok false :=
  acceptsValue_builtin .none t

namespace StoredAs

/-- A kept value is found under its stored form. -/
theorem lookup {t : ElementType} {v : HostValue} {d : Datum} (h : StoredAs t v d) :
    Catalog.builtin.lookup v t = .ok (some d) :=
  (KeyFate.stored h.accepted h.stored).lookup

theorem mapM_toDatum {e : ElementType} {vs : List HostValue} {ds : List Datum}
    (h : List.Forall₂ (StoredAs e) vs ds) : vs.mapM e.toDatum = .ok ds :=
  mapM_eq_ok_iff.mpr (h.imp fun _ _ h => h.stored)

theorem mapM_storeEntry {k t : ElementType} {ps : List (HostValue × HostValue)}
    {es : List (Datum × Datum)}
    (h : List.Forall₂ (fun p e => StoredAs k p.1 e.1 ∧ StoredAs t p.2 e.2) ps es) :
    ps.mapM (Content.storeEntry k t) = .ok es := by
  refine mapM_eq_ok_iff.mpr (h.imp fun p e h => ?_)
  rw [Content.storeEntry, h.1.stored, h.2.stored]
  rfl

theorem list {e : ElementType} {vs : List HostValue} {ds : List Datum}
    (h : List.Forall₂ (StoredAs e) vs ds) : StoredAs (.vector e) (.list vs) (.vector ds) := by
  obtain ⟨ws, hws, hmatches⟩ := exists_mapM_forall₂ (fun v d (h : StoredAs e v d) => h.shown) h
  refine ⟨rfl, ?_, .list ws, ?_, .list hmatches⟩
  · rw [ElementType.toDatum, mapM_toDatum h]
    rfl
  · rw [Datum.toHost, Datum.toHostAll_eq_mapM, hws]
    rfl

theorem set {e : ElementType} {vs : List HostValue} {ds : List Datum}
    (h : List.Forall₂ (StoredAs e) vs ds) (hn : ds.Nodup) :
    StoredAs (.set e) (.set vs) (.set (Ordered.ofList id ds)) := by
  have horder : (Ordered.ofList id ds).Perm ds := Ordered.ofList_perm (by rwa [List.map_id])
  obtain ⟨us, hus, hperm⟩ := List.perm_comp_forall₂ horder h.flip
  obtain ⟨ws, hws, hmatches⟩ := exists_mapM_forall₂
    (fun v d (h : StoredAs e v d) => h.shown) hus.flip
  refine ⟨rfl, ?_, .set ws, ?_, .set hmatches hperm⟩
  · rw [ElementType.toDatum, mapM_toDatum h]
    rfl
  · rw [Datum.toHost, Datum.toHostAll_eq_mapM, hws]
    rfl

theorem dict {k t : ElementType} {ps : List (HostValue × HostValue)} {es : List (Datum × Datum)}
    (h : List.Forall₂ (fun p e => StoredAs k p.1 e.1 ∧ StoredAs t p.2 e.2) ps es)
    (hn : (es.map Prod.fst).Nodup) :
    StoredAs (.map k t) (.dict ps) (.map (Ordered.ofList Prod.fst es)) := by
  have hshown : ∀ (p : HostValue × HostValue) (e : Datum × Datum),
      StoredAs k p.1 e.1 ∧ StoredAs t p.2 e.2 → ∃ q : HostValue × HostValue,
        (do let key ← e.1.toHost k; let value ← e.2.toHost t; return (key, value)) = .ok q ∧
          q.1.Matches p.1 ∧ q.2.Matches p.2 := by
    rintro p e ⟨hk, ht⟩
    obtain ⟨x, hx, hxm⟩ := hk.shown
    obtain ⟨y, hy, hym⟩ := ht.shown
    exact ⟨(x, y), by rw [hx, hy]; rfl, hxm, hym⟩
  obtain ⟨qs, hqs, hperm⟩ := List.perm_comp_forall₂ (Ordered.ofList_perm hn) h.flip
  obtain ⟨rs, hrs, hmatches⟩ := exists_mapM_forall₂ hshown hqs.flip
  refine ⟨rfl, ?_, .dict rs, ?_, .dict hmatches hperm⟩
  · rw [ElementType.toDatum]
    show (ps.mapM (Content.storeEntry k t) >>= _) = _
    rw [mapM_storeEntry h]
    rfl
  · rw [Datum.toHost, Datum.toHostEntries_eq_mapM, hrs]
    rfl

end StoredAs

end WrapGen
