import WrapGen.Bundle.MapWrapper
import WrapGen.Bundle.SetWrapper
import WrapGen.Proofs.Naming.Distinct
import WrapGen.Proofs.Scenario.Samples
import WrapGen.Proofs.Scenario.Steps

/-!
# Generated tests pass

The tests that are generated for set and map wrappers run to their end on the
wrappers of the model, at every type: the script is fixed, and all that it needs
of the type is that its samples are kept in distinct forms (`Sampled`). Which keys
a container holds at each point of the script is a set of places of samples
(`KeysAt`), so membership and length are decided on the places.

* `leads_setScenario`, `leads_mapScenario`: the two scripts, statement by statement.
* `generated_tests_pass`: the tests of every generated wrapper.
-/
namespace WrapGen

open Code WrapGen.Bundle

/-! ## Keys at places of samples -/

namespace Collection

/-- The keys of a container are the data at some places. -/
def KeysAt (d : Fin 4 → Datum) (places : Finset (Fin 4)) (m : Collection) : Prop :=
  m.keys = places.image d

variable {d : Fin 4 → Datum} {places : Finset (Fin 4)} {m : Collection}
  (hd : Function.Injective d)

include hd in
theorem KeysAt.mem_iff (h : KeysAt d places m) (i : Fin 4) : d i ∈ m.keys ↔ i ∈ places := by
  rw [h]
  exact hd.mem_finset_image

include hd in
theorem KeysAt.card_eq (h : KeysAt d places m) : m.keys.card = places.card := by
  rw [h]
  exact Finset.card_image_of_injective places hd

theorem KeysAt.add {members : Finset Datum} (h : KeysAt d places (.set members)) (i : Fin 4) :
    KeysAt d (insert i places) ((Collection.set members).add (d i)) := by
  have hkeys : members = places.image d := h
  show insert (d i) members = _
  rw [hkeys, Finset.image_insert]

theorem KeysAt.put {entries : Finmap fun _ : Datum => Datum}
    (h : KeysAt d places (.map entries)) (i : Fin 4) (v : Datum) :
    KeysAt d (insert i places) ((Collection.map entries).put (d i) v) := by
  have hkeys : entries.keys = places.image d := h
  ext x
  show x ∈ (entries.insert (d i) v).keys ↔ _
  rw [Finmap.mem_keys, Finmap.mem_insert, ← Finmap.mem_keys, hkeys, Finset.image_insert,
    Finset.mem_insert]

include hd in
theorem KeysAt.erase (h : KeysAt d places m) (i : Fin 4) :
    KeysAt d (places.erase i) (m.erase (d i)) := by
  have hkeys : (m.erase (d i)).keys = m.keys.erase (d i) := by
    cases m with
    | set members => rfl
    | map entries => exact Finmap.keys_erase (d i) entries
  rw [KeysAt, hkeys, h, Finset.image_erase hd]

theorem get?_eq_none {x : Datum} (h : x ∉ m.keys) : m.get? x = none := by
  cases m with
  | set members => rfl
  | map entries => exact Finmap.lookup_eq_none.mpr (Finmap.mem_keys.not.mp h)

end Collection

/-! ## Containers from written values -/

theorem Collection.ofHost_list {e : ElementType} {vs : List HostValue} {ds : List Datum}
    (h : List.Forall₂ (StoredAs e) vs ds) :
    ofHost (.set e) (.list vs) = .ok (.set ds.toFinset) := by
  show (vs.mapM e.toDatum >>= fun ds => pure (Collection.set ds.toFinset)) = _
  rw [StoredAs.mapM_toDatum h]
  rfl

theorem Collection.ofHost_dict {k t : ElementType} {ps : List (HostValue × HostValue)}
    {es : List (Datum × Datum)}
    (h : List.Forall₂ (fun p e => StoredAs k p.1 e.1 ∧ StoredAs t p.2 e.2) ps es) :
    ofHost (.map k t) (.dict ps) = .ok (.map (es.foldl (fun m e => m.insert e.1 e.2) ∅)) := by
  show (ps.mapM (Content.storeEntry k t) >>= fun es =>
    pure (Collection.map (es.foldl (fun m e => m.insert e.1 e.2) ∅))) = _
  rw [StoredAs.mapM_storeEntry h]
  rfl

namespace Scenario

open Collection

theorem start_empty {t : WrappedType} (hk : t.keyType.isKey = true) :
    Origin.empty.start? t = some (.ok (Collection.empty t)) := by
  rw [Origin.start?, Store.checked_of_isKey hk]
  rfl

theorem start_host {t : WrappedType} {v : HostValue} {m : Collection}
    (hk : t.keyType.isKey = true) (h : ofHost t v = .ok m) :
    (Origin.host v).start? t = some (.ok m) := by
  rw [Origin.start?, Store.checked_of_isKey hk]
  show some (Store.refuse (ofHost t v)) = _
  rw [h]
  rfl

/-- Samples as keys are shown by an iterator. -/
theorem shown_of_keysAt {t : ElementType} {ls : List Literal} {d : Fin 4 → Datum}
    {places : Finset (Fin 4)} {m : Collection} (h : Sampled t ls d) (hm : m.KeysAt d places) :
    ∀ k ∈ m.keys, ∃ v, k.toHost t = .ok v := by
  intro k hk
  rw [hm] at hk
  obtain ⟨i, -, rfl⟩ := Finset.mem_image.mp hk
  obtain ⟨v, hv, -⟩ := (h.kept i).shown
  exact ⟨v, hv⟩

/-! ## Sets -/

/-- The scenario of a set: one item added twice, another discarded that is not
there, then a list of three, of which one is discarded. -/
theorem leads_setScenario {e : ElementType} (hkey : e.isKey = true) {ls : List Literal}
    {d : Fin 4 → Datum} (h : Sampled e ls d) (n : WrapperNames) (insertion : Insertion) :
    let c : Subject := ⟨n.publicClass, .set e, insertion⟩
    ∃ m, Leads c Reached (setScenario n ls) (Iterates c "s" [] m "it" .done) := by
  intro c
  have hs : "s" ∈ ["s"] := List.mem_cons_self
  have hd := h.injective
  have hwritten : List.Forall₂ (StoredAs e) [.ofLiteral (sampleAt ls 0),
      .ofLiteral (sampleAt ls 1), .ofLiteral (sampleAt ls 2)] [d 0, d 1, d 2] :=
    .cons (h.kept 0) (.cons (h.kept 1) (.cons (h.kept 2) .nil))
  let one := (Collection.empty c.type).add (d 0)
  let three := Collection.set [d 0, d 1, d 2].toFinset
  have hone : one.KeysAt d {0} := rfl
  have hagain : (one.add (d 0)).KeysAt d {0, 0} := hone.add 0
  have hgone : ((one.add (d 0)).erase (d 1)).KeysAt d (Finset.erase {0, 0} 1) := hagain.erase hd 1
  have hthree : three.KeysAt d {0, 1, 2} := by simp [KeysAt, three, Collection.keys]
  have htwo : (three.erase (d 2)).KeysAt d (Finset.erase {0, 1, 2} 2) := hthree.erase hd 2
  refine ⟨three.erase (d 2), .append ?_ (leads_exhaustionChecks (shown_of_keysAt h htwo) hs
    (htwo.card_eq hd))⟩
  refine .cons (leads_make "s" rfl (start_empty hkey) fun _ h => h) ?_
  refine .cons (leads_add hs rfl (h.kept 0)) ?_
  refine .cons (leads_assertIn hs (h.kept 0) ((hone.mem_iff hd 0).mpr (by decide))) ?_
  refine .cons (leads_assertNotIn hs (h.kept 2) ((hone.mem_iff hd 2).not.mpr (by decide))) ?_
  refine .cons (leads_add hs rfl (h.kept 0)) ?_
  refine .cons (leads_assertLength hs (hagain.card_eq hd)) ?_
  refine .cons (leads_discard hs rfl (h.kept 1)) ?_
  refine .cons (leads_assertLength hs (hgone.card_eq hd)) ?_
  refine .cons leads_blank ?_
  refine .cons (leads_make "s" rfl (start_host hkey (ofHost_list hwritten)) fun _ h => h.reached) ?_
  refine .cons (leads_assertIn hs (h.kept 1) ((hthree.mem_iff hd 1).mpr (by decide))) ?_
  refine .cons (leads_assertNotIn hs (h.kept 3) ((hthree.mem_iff hd 3).not.mpr (by decide))) ?_
  refine .cons (leads_assertNoneAbsent hs) ?_
  refine .cons (leads_discard hs rfl (h.kept 2)) ?_
  refine .cons (leads_assertLength hs (htwo.card_eq hd)) ?_
  exact leads_blank

/-! ## Maps -/

/-- The scenario of a map: two entries one after the other, then a dict of two, of
which an alias replaces one value and removes the other key. -/
theorem leads_mapScenario {k t : ElementType} (hkey : k.isKey = true) {keys values : List Literal}
    {d w : Fin 4 → Datum} (hk : Sampled k keys d) (hv : Sampled t values.reverse w)
    (samples : Samples) (n : WrapperNames) (insertion : Insertion) :
    let c : Subject := ⟨n.publicClass, .map k t, insertion⟩
    ∃ m, Leads c Reached (mapScenario n samples t keys values)
      (Iterates c "m" ["n"] m "it" .done) := by
  intro c
  have hm {aliases : List String} : "m" ∈ "m" :: aliases := List.mem_cons_self
  have hn : "n" ∈ ["m", "n"] := by decide
  have hd := hk.injective
  have hwritten : List.Forall₂ (fun p e => StoredAs k p.1 e.1 ∧ StoredAs t p.2 e.2)
      [(.ofLiteral (sampleAt keys 2), .ofLiteral (sampleAt values.reverse 2)),
        (.ofLiteral (sampleAt keys 3), .ofLiteral (sampleAt values.reverse 3))]
      [(d 2, w 2), (d 3, w 3)] :=
    .cons ⟨hk.kept 2, hv.kept 2⟩ (.cons ⟨hk.kept 3, hv.kept 3⟩ .nil)
  let first := (Collection.empty c.type).put (d 0) (w 0)
  let second := first.put (d 1) (w 1)
  let given := Collection.map ((Finmap.insert (d 2) (w 2) ∅).insert (d 3) (w 3))
  let changed := given.put (d 2) (w 3)
  have hempty : (Collection.empty c.type).KeysAt d ∅ := rfl
  have hsecond : second.KeysAt d {1, 0} := (hempty.put 0 (w 0)).put 1 (w 1)
  have hgiven : given.KeysAt d {3, 2} := (hempty.put 2 (w 2)).put 3 (w 3)
  have hchanged : changed.KeysAt d {2, 3, 2} := hgiven.put 2 (w 3)
  have hsame : (changed.erase (d 0)).KeysAt d (Finset.erase {2, 3, 2} 0) := hchanged.erase hd 0
  have hleft : ((changed.erase (d 0)).erase (d 3)).KeysAt d ((Finset.erase {2, 3, 2} 0).erase 3) :=
    hsame.erase hd 3
  have hat1 : second.get? (d 1) = some (w 1) := Finmap.lookup_insert _
  have hno2 : second.get? (d 2) = none :=
    get?_eq_none ((hsecond.mem_iff hd 2).not.mpr (by decide))
  have hat2 : given.get? (d 2) = some (w 2) :=
    (Finmap.lookup_insert_of_ne _ (hd.ne (by decide))).trans (Finmap.lookup_insert _)
  have hnew2 : changed.get? (d 2) = some (w 3) := Finmap.lookup_insert _
  refine ⟨_, .append ?_ (leads_exhaustionChecks (shown_of_keysAt hk hleft) hm
    (hleft.card_eq hd))⟩
  refine .cons (leads_make "m" rfl (start_empty hkey) fun _ h => h) ?_
  refine .cons (leads_put hm rfl (hk.kept 0) (hv.kept 0)) ?_
  refine .cons (leads_put hm rfl (hk.kept 1) (hv.kept 1)) ?_
  refine .cons (leads_assertLength hm (hsecond.card_eq hd)) ?_
  refine .cons (leads_assertEntry samples hm rfl (hk.kept 1) (hv.kept 1) hat1) ?_
  refine .cons (leads_raisesKeyError hm rfl (hk.kept 2) hno2) ?_
  refine .cons (leads_raisesTypeError hm rfl) ?_
  refine .cons (leads_assertNoneAbsent hm) ?_
  refine .cons leads_blank ?_
  refine .cons (leads_make "m" rfl (start_host hkey (ofHost_dict hwritten)) fun _ h => h.reached) ?_
  refine .cons (leads_assertLength hm (hgiven.card_eq hd)) ?_
  refine .cons (leads_assertEntry samples hm rfl (hk.kept 2) (hv.kept 2) hat2) ?_
  refine .cons leads_blank ?_
  refine .cons (leads_alias (by decide)) ?_
  refine .cons (leads_assertLength hn (hgiven.card_eq hd)) ?_
  refine .cons (leads_assertEntry samples hn rfl (hk.kept 2) (hv.kept 2) hat2) ?_
  refine .cons leads_blank ?_
  refine .cons (leads_comment _) ?_
  refine .cons (leads_put hn rfl (hk.kept 2) (hv.kept 3)) ?_
  refine .cons (leads_assertEntry samples hm rfl (hk.kept 2) (hv.kept 3) hnew2) ?_
  refine .cons (leads_delete hn rfl (hk.kept 0)) ?_
  refine .cons (leads_assertLength hm (hsame.card_eq hd)) ?_
  refine .cons (leads_delete hn rfl (hk.kept 3)) ?_
  refine .cons (leads_assertLength hm (hleft.card_eq hd)) ?_
  exact leads_blank

/-! ## Every generated test -/

/-- A bundle has a test, and all of its tests pass. -/
def TestsPass (c : Subject) (b : Bundle) : Prop :=
  (∃ f, Item.function f ∈ b.tests) ∧ ∀ f, Item.function f ∈ b.tests → Passes c f

theorem testsPass_of_leads {c : Subject} {b : Bundle} {n : WrapperNames} {body : List Stmt}
    {Q : Store → Prop} (hb : b.tests = testFragment n body) (h : Leads c Reached body Q) :
    TestsPass c b := by
  obtain ⟨s, hrun, -⟩ := h .empty (Store.typing_after .builtin [])
  have hpasses : Passes c (.hostCallable n.test [] body) := ⟨body, s, rfl, hrun⟩
  have htests : ∀ f, .function f ∈ b.tests ↔ f = .hostCallable n.test [] body := by
    intro f
    rw [hb]
    simp [testFragment]
  exact ⟨⟨_, (htests _).mpr rfl⟩, fun f hf => (htests f).mp hf ▸ hpasses⟩

/-- The test of a set wrapper is the scenario at the samples of its elements. -/
theorem tests_of_setWrapper {g : Generator} {e : ElementType} {b : Bundle}
    (h : g.setWrapper e = .ok b) : ∃ names samples, SetNames.of g.catalog e = .ok names ∧
      g.samples.values e = .ok samples ∧
      b.tests = testFragment names.wrapper (setScenario names.wrapper samples) := by
  obtain ⟨names, f, samples, hnames, -, hsamples, rfl⟩ := Generator.setWrapper_eq_ok h
  exact ⟨names, samples, hnames, hsamples, rfl⟩

/-- The test of a map wrapper is the scenario at the samples of its keys and values. -/
theorem tests_of_mapWrapper {g : Generator} {k t : ElementType} {b : Bundle}
    (h : g.mapWrapper k t = .ok b) : ∃ names keys values,
      MapNames.of g.catalog k t = .ok names ∧ g.samples.values k = .ok keys ∧
      g.samples.values t = .ok values ∧
      b.tests = testFragment names.wrapper (mapScenario names.wrapper g.samples t keys values) := by
  obtain ⟨names, f, keys, values, hnames, -, hkeys, hvalues, rfl⟩ := Generator.mapWrapper_eq_ok h
  exact ⟨names, keys, values, hnames, hkeys, hvalues, rfl⟩

/-- The generated tests of set and map wrappers pass, for all ordered primitives as
keys, all types of values and both ways of insertion. -/
theorem generated_tests_pass {p : Primitive} (hp : p.isOrdered = true) (insertion : Insertion) :
    let g : Generator := ⟨.builtin, .builtin, insertion⟩
    let key : ElementType := .primitive p
    (∃ names b, SetNames.of .builtin key = .ok names ∧ g.setWrapper key = .ok b ∧
      TestsPass ⟨names.wrapper.publicClass, .set key, insertion⟩ b) ∧
    ∀ t, ∃ names b, MapNames.of .builtin key t = .ok names ∧ g.mapWrapper key t = .ok b ∧
      TestsPass ⟨names.wrapper.publicClass, .map key t, insertion⟩ b := by
  intro g key
  have hkey : key.isKey = true := hp
  have hmade : ∀ r : Request, r.type.keyType = key → ∃ b, r.bundle g = .ok b := fun r hr =>
    Request.exists_bundle (fun _ => ⟨_, rfl⟩) (hr ▸ hkey)
  obtain ⟨d, hk⟩ := exists_sampled key
  constructor
  · obtain ⟨b, hb⟩ := hmade (.set key) rfl
    have hset : g.setWrapper key = .ok b := mapError_eq_ok_iff.mp hb
    obtain ⟨names, samples, hnames, hsamples, htests⟩ := tests_of_setWrapper hset
    cases hsamples
    obtain ⟨m, hleads⟩ := leads_setScenario hkey hk names.wrapper insertion
    exact ⟨names, b, hnames, hset, testsPass_of_leads htests hleads⟩
  · intro t
    obtain ⟨w, hv⟩ := exists_sampled t
    obtain ⟨b, hb⟩ := hmade (.map key t) rfl
    have hmap : g.mapWrapper key t = .ok b := mapError_eq_ok_iff.mp hb
    obtain ⟨names, keys, values, hnames, hkeys, hvalues, htests⟩ := tests_of_mapWrapper hmap
    cases hkeys
    cases hvalues
    obtain ⟨m, hleads⟩ := leads_mapScenario hkey hk hv.reverse .builtin names.wrapper insertion
    exact ⟨names, b, hnames, hmap, testsPass_of_leads htests hleads⟩

/-- Texts as keys, with a nested type of values. -/
theorem generated_tests_pass_nested :
    let g : Generator := ⟨.builtin, .builtin, .strict⟩
    let key : ElementType := .primitive .str
    let t : ElementType := .map (.primitive .int32) (.vector (.set (.primitive .float32)))
    (∃ names b, SetNames.of .builtin key = .ok names ∧ g.setWrapper key = .ok b ∧
      TestsPass ⟨names.wrapper.publicClass, .set key, .strict⟩ b) ∧
    ∃ names b, MapNames.of .builtin key t = .ok names ∧ g.mapWrapper key t = .ok b ∧
      TestsPass ⟨names.wrapper.publicClass, .map key t, .strict⟩ b := by
  intro g key t
  obtain ⟨hset, hmap⟩ := generated_tests_pass (p := .str) rfl .strict
  exact ⟨hset, hmap t⟩

end Scenario

end WrapGen
