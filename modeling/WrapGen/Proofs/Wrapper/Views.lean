import WrapGen.Proofs.Conversion.RoundTrip
import WrapGen.Proofs.Value.Matching
import WrapGen.Proofs.Wrapper.Finding
import WrapGen.Proofs.Wrapper.Iteration
import WrapGen.Proofs.Wrapper.Model

/-!
# Views of a container

A container is seen as one host value, item by item through an iterator, by its
size, and by what is found in it. A key that is given to the host is converted
back to the key that it comes from, a NaN in the 32-bit format apart, so all of
these show the same (`MapViews`, `SetViews`).

* `WellTyped.yields`: an iterator gives the keys, one after the other.
* `Live.discards`: discarding the items of a set, one after the other, empties it.
* `views_agree`: the views of every live container.
-/
namespace WrapGen

open Catalog Binary

namespace Datum

/-! ## Keys that come back -/

theorem restored_key {d : Datum} {t : ElementType} (hk : t.isKey = true) (h : d.hasType t = true)
    (hn : d.NumberIfSingle) : Restored t d := by
  cases t with
  | primitive p =>
    cases d with
    | vector | set | map => cases h
    | _ => exact restored_of_inOrder h trivial hn
  | vector | set | map => cases hk

/-- A key that is given to the host is looked up as the key that it comes from. -/
theorem keyFate_of_toHost {d : Datum} {t : ElementType} (hk : t.isKey = true)
    (h : d.hasType t = true) (hn : d.NumberIfSingle) {v : HostValue} (hv : d.toHost t = .ok v) :
    KeyFate t v (some d) := by
  obtain ⟨v', hv', hback⟩ := restored_key hk h hn
  cases hv.symm.trans hv'
  exact .of_toDatum hback

/-! ## Items and entries given to the host -/

theorem toHostAll_eq_ok_iff {t : ElementType} {ds : List Datum} {vs : List HostValue} :
    toHostAll ds t = .ok vs ↔ List.Forall₂ (fun d v => d.toHost t = .ok v) ds vs := by
  rw [toHostAll_eq_mapM, mapM_eq_ok_iff]

theorem forall₂_of_toHostEntries {k t : ElementType} {ds : List (Datum × Datum)}
    {es : List (HostValue × HostValue)} (h : toHostEntries ds k t = .ok es) :
    List.Forall₂ (fun d e => d.1.toHost k = .ok e.1 ∧ d.2.toHost t = .ok e.2) ds es := by
  rw [toHostEntries_eq_mapM] at h
  refine (forall₂_of_mapM h).imp fun d e hd => ?_
  obtain ⟨x, hx, hd⟩ := bind_eq_ok hd
  obtain ⟨y, hy, hd⟩ := bind_eq_ok hd
  cases hd
  exact ⟨hx, hy⟩

end Datum

theorem Content.erase_first {e : ElementType} {d : Datum} {ds : List Datum}
    (h : (set (d :: ds)).Fits (.set e)) : (set (d :: ds)).erase d = set ds := by
  have hs : Ordered.Sorted id ([] ++ d :: ds) := h
  exact congrArg set hs.erase_append

namespace Store

variable {c : Catalog} {s : Store}

/-! ## Iterators of a container that stays the same -/

theorem contents_next (c : Catalog) (s : Store) (iterator : String) :
    (s.step c (.next iterator)).1.contents = s.contents := by
  have he := step_effect c s (.next iterator)
  generalize (s.step c (.next iterator)).1 = s' at he ⊢
  cases he with
  | same => rfl
  | erased id w k hw hl ho => cases ho
  | moved => rfl

theorem contents_after_nexts {iterator : String} : ∀ {ops : List Operation} {s : Store},
    (∀ op ∈ ops, op = .next iterator) → (s.after c ops).contents = s.contents
  | [], _, _ => rfl
  | op :: ops, s, h => by
    obtain ⟨rfl, hops⟩ := List.forall_mem_cons.mp h
    exact (contents_after_nexts hops).trans (contents_next c s iterator)

theorem length_replies_nexts (iterator : String) : ∀ (n : Nat) (s : Store),
    (replies c iterator s (List.replicate n (.next iterator))).length = n
  | 0, _ => rfl
  | n + 1, s => by
    rw [List.replicate_succ, replies_cons_next, List.length_cons,
      length_replies_nexts iterator n]

/-- An iterator at its start, stepped often enough, gives the keys that are there, and
from then on nothing. -/
theorem Walk.replies_nexts {iterator : String} {n m : Nat} {item : ElementType}
    {vs : List HostValue}
    (h : Walk c iterator n item s .start (List.replicate (vs.length + m) (.next iterator)))
    (hs : Ordered.Sorted id (s.contentAt n).keys)
    (hvs : Datum.toHostAll (s.contentAt n).keys item = .ok vs) :
    Store.replies c iterator s (List.replicate (vs.length + m) (.next iterator)) =
      vs.map .value ++ List.replicate m .exhausted := by
  have hlength := length_replies_nexts iterator (c := c) (vs.length + m) s
  obtain ⟨rest, hreplies⟩ := h.replies
  have hsame : ∀ past, past <+: List.replicate (vs.length + m) (.next iterator) →
      ((s.after c past).contentAt n).keys = (s.contentAt n).keys := by
    intro past hpast
    rw [contentAt, contents_after_nexts fun op hop =>
      List.eq_of_mem_replicate (hpast.subset hop)]
    rfl
  have hkeys : (visits c iterator s (List.replicate (vs.length + m) (.next iterator))).map
      Visit.key = (s.contentAt n).keys := by
    rw [h.visits_of_unchanged hsame hs fun k => by simp [Position.Before], List.countP_replicate,
      if_pos Operation.advances_next, List.take_of_length_le]
    rw [(Datum.toHostAll_eq_ok_iff.mp hvs).length_eq]
    exact Nat.le_add_right _ _
  have hpresent := h.present
  generalize visits c iterator s (List.replicate (vs.length + m) (.next iterator)) = seen
    at hreplies hkeys hpresent
  have hvalues : seen.map Visit.value = vs := by
    have hback : Datum.toHostAll (seen.map Visit.key) item = .ok (seen.map Visit.value) := by
      refine Datum.toHostAll_eq_ok_iff.mpr ?_
      rw [List.forall₂_map_left_iff, List.forall₂_map_right_iff]
      exact List.forall₂_same.mpr fun v hv => (hpresent v hv).2
    rw [hkeys, hvs] at hback
    exact (Except.ok.inj hback).symm
  have hrest : rest = m := by
    rw [hreplies, List.length_append, List.length_map, List.length_replicate, ← hvalues,
      List.length_map] at hlength
    exact Nat.add_left_cancel hlength
  rw [hreplies, hrest, ← hvalues, List.map_map]
  rfl

/-- A new iterator of a container gives these values, one after the other, and from
then on nothing. -/
structure Yields (c : Catalog) (s : Store) (id : String) (vs : List HostValue) : Prop where
  opens : ∀ iterator, (s.step c (.iterate id iterator)).2 = .done
  steps : ∀ iterator n,
    replies c iterator (s.step c (.iterate id iterator)).1
        (List.replicate (vs.length + n) (.next iterator)) =
      vs.map .value ++ List.replicate n .exhausted

/-- An iterator gives the keys. -/
theorem WellTyped.yields {types : List WrappedType} (h : WellTyped types s) (c : Catalog)
    {id : String} {w : Wrapper} (hw : s.wrappers.lookup id = some w)
    (hl : s.isLive w.storage = true) {vs : List HostValue}
    (hvs : Datum.toHostAll (s.contentAt w.storage).keys w.type.keyType = .ok vs) :
    Yields c s id vs := by
  have hopen : ∀ iterator, s.step c (.iterate id iterator) =
      ({ s with cursors := rebind iterator ⟨w.type.keyType, w.storage, .start⟩ s.cursors },
        .done) := by
    intro iterator
    rw [Store.step, run, wrapper_bind hw, content_bind hl]
    rfl
  refine ⟨fun iterator => by rw [hopen], fun iterator n => ?_⟩
  obtain ⟨types', h'⟩ := h.step c (.iterate id iterator)
  rw [hopen] at h' ⊢
  refine Walk.replies_nexts (walk h' lookup_rebind_self fun op hop => ?_)
    (h.toTyping.contentAt (h.lookup hw)).2.sorted hvs
  rw [List.eq_of_mem_replicate hop]
  rfl

/-! ## Views -/

section
variable (s : Store) (id : String)

/-- The views of a map agree on its entries. -/
structure MapViews (entries : List (HostValue × HostValue)) : Prop where
  whole : s.step builtin (.toHost id) = (s, .value (.dict entries))
  yields : Yields builtin s id (entries.map Prod.fst)
  size : s.step builtin (.size id) = (s, .count entries.length)
  members : ∀ entry ∈ entries, s.step builtin (.contains id entry.1) = (s, .flag true)
  values : ∀ entry ∈ entries, s.step builtin (.get id entry.1) = (s, .value entry.2)

/-- The views of a set agree on its items, and it has no others. -/
structure SetViews (items : List HostValue) : Prop where
  whole : s.step builtin (.toHost id) = (s, .value (.set items))
  yields : Yields builtin s id items
  size : s.step builtin (.size id) = (s, .count items.length)
  members : ∀ item ∈ items, s.step builtin (.contains id item) = (s, .flag true)
  emptied : ((s.after builtin (items.map (.discard id))).step builtin (.toHost id)).2 =
      .value (.set []) ∧
    ((s.after builtin (items.map (.discard id))).step builtin (.size id)).2 = .count 0

end

section
variable {id : String} {w : Wrapper} {content : Content}

theorem Live.step_size (h : Live s id w content) :
    s.step builtin (.size id) = (s, .count content.size) := by
  rw [Store.step, run, wrapper_bind h.bound, h.content_bind]
  rfl

theorem Live.step_toHost (h : Live s id w content) {v : HostValue}
    (hv : content.datum.toHost w.type.elementType = .ok v) :
    s.step builtin (.toHost id) = (s, .value v) := by
  rw [Store.step, run, wrapper_bind h.bound, h.content_bind, hv]
  rfl

/-- A key that is given to the host is a member. -/
theorem Live.step_contains (h : Live s id w content) {d : Datum} {v : HostValue}
    (hd : d ∈ content.keys) (hk : KeyFate w.type.keyType v (some d)) :
    s.step builtin (.contains id v) = (s, .flag true) := by
  have hcontains : content.contains d = true := Ordered.contains_iff.mpr (by rwa [List.map_id])
  rw [Store.step, h.contains hk, Option.any_some, hcontains]

theorem Live.step_get (h : Live s id w content) {k t : ElementType} (ht : w.type = .map k t)
    {entries : List (Datum × Datum)} (hcontent : content = .map entries)
    (hs : Ordered.Sorted Prod.fst entries) {e : Datum × Datum} (he : e ∈ entries)
    {v : HostValue × HostValue} (hk : KeyFate k v.1 (some e.1)) (hv : e.2.toHost t = .ok v.2) :
    s.step builtin (.get id v.1) = (s, .value v.2) := by
  subst hcontent
  have hget : (Content.map entries).get? e.1 = some e.2 := by
    rw [Content.get?, hs.find?_of_mem he]
    rfl
  cases hk with
  | stored hb hd => rw [Store.step, h.get_found ht hb (.stored hb hd) hget hv]

theorem Live.discard (h : Live s id w content) {e : ElementType} (ht : w.type = .set e) {d : Datum}
    {v : HostValue} (hk : KeyFate w.type.keyType v (some d)) :
    (s.step builtin (.discard id v)).1 = s.setContent w.storage (content.erase d) := by
  rw [step_of_run_ok ((h.run_discard ht).trans (h.remove_stored hk))]

/-- Discarding the items of a set, from the first to the last, leaves none. -/
theorem Live.discards {e : ElementType} (ht : w.type = .set e) {ds : List Datum}
    {vs : List HostValue} (hvs : List.Forall₂ (fun d v => KeyFate w.type.keyType v (some d)) ds vs)
    {s : Store} (h : Live s id w (.set ds)) (hf : (Content.set ds).Fits w.type) :
    Live (s.after builtin (vs.map (.discard id))) id w (.set []) := by
  induction hvs generalizing s with
  | nil => exact h
  | @cons d v ds vs hk _ ih =>
    have herase : (Content.set (d :: ds)).erase d = .set ds := Content.erase_first (ht ▸ hf)
    have hf' := hf.erase d
    have h' : Live (s.setContent w.storage ((Content.set (d :: ds)).erase d)) id w
        ((Content.set (d :: ds)).erase d) :=
      h.setContent (Content.hasType_erase h.typed d)
    rw [herase] at hf' h'
    have hstep := h.discard ht hk
    rw [herase] at hstep
    show Live ((s.step builtin (.discard id v)).1.after builtin (vs.map (.discard id))) id w _
    rw [hstep]
    exact ih h' hf'

end

section
variable {types : List WrappedType} (h : WellTyped types s) {id : String} {w : Wrapper}
  (hw : s.wrappers.lookup id = some w) (hl : s.isLive w.storage = true)
  (hn : ∀ d ∈ (s.contentAt w.storage).keys, d.NumberIfSingle)
include h hw hn

/-- The host value of a key is looked up as this key. -/
theorem WellTyped.keyFate {d : Datum} (hd : d ∈ (s.contentAt w.storage).keys) {v : HostValue}
    (hv : d.toHost w.type.keyType = .ok v) : KeyFate w.type.keyType v (some d) :=
  Datum.keyFate_of_toHost (h.keys _ (List.mem_of_getElem? (h.lookup hw)))
    (Content.hasType_of_mem_keys (h.contentAt (h.lookup hw)) hd) (hn d hd) hv

theorem WellTyped.keyFates {vs : List HostValue}
    (hvs : Datum.toHostAll (s.contentAt w.storage).keys w.type.keyType = .ok vs) :
    List.Forall₂ (fun d v => d ∈ (s.contentAt w.storage).keys ∧ KeyFate w.type.keyType v (some d))
      (s.contentAt w.storage).keys vs := by
  have hall := (List.forall₂_and_left _ _).mpr ⟨fun d hd => hd, Datum.toHostAll_eq_ok_iff.mp hvs⟩
  exact hall.imp fun d v hdv => ⟨hdv.1, h.keyFate hw hn hdv.1 hdv.2⟩

include hl

theorem WellTyped.step_contains {vs : List HostValue}
    (hvs : Datum.toHostAll (s.contentAt w.storage).keys w.type.keyType = .ok vs) :
    ∀ v ∈ vs, s.step builtin (.contains id v) = (s, .flag true) := by
  intro v hv
  obtain ⟨d, -, hd, hk⟩ := forall₂_mem_right (h.keyFates hw hn hvs) hv
  exact (h.live hw hl).step_contains hd hk

theorem WellTyped.setViews {e : ElementType} (ht : w.type = .set e) :
    ∃ items, SetViews s id items := by
  have hlive := h.live hw hl
  obtain ⟨ds, hcontent⟩ := hlive.exists_items ht
  obtain ⟨vs, hvs⟩ : ∃ vs,
      Datum.toHostAll (s.contentAt w.storage).keys w.type.keyType = .ok vs := by
    have htyped := hlive.typed
    rw [hcontent, ht] at htyped ⊢
    exact Datum.toHostAll_of_hasType htyped
  have hfates := h.keyFates hw hn hvs
  have hempty : Live (s.after builtin (vs.map (.discard id))) id w (.set []) := by
    have hset : Live s id w (.set ds) := hcontent ▸ hlive
    rw [hcontent] at hfates
    exact Live.discards ht (hfates.imp fun d v => And.right) hset
      (hcontent ▸ (h.toTyping.contentAt (h.lookup hw)).2)
  refine ⟨vs, hlive.step_toHost ?_, h.yields builtin hw hl hvs, ?_, h.step_contains hw hl hn hvs,
    ?_, ?_⟩
  · rw [hcontent, ht] at hvs ⊢
    show (Datum.toHostAll ds e >>= fun vs => Except.ok (HostValue.set vs)) = _
    rw [show Datum.toHostAll ds e = .ok vs from hvs]
    rfl
  · rw [hlive.step_size, Content.size, hfates.length_eq]
  · rw [hempty.step_toHost (v := .set []) (by rw [ht]; rfl)]
  · rw [hempty.step_size]
    rfl

theorem WellTyped.mapViews {k t : ElementType} (ht : w.type = .map k t) :
    ∃ entries, MapViews s id entries := by
  have hlive := h.live hw hl
  obtain ⟨ds, hcontent, htyped⟩ := hlive.exists_entries ht
  have hfits := (h.toTyping.contentAt (h.lookup hw)).2
  rw [hcontent, ht] at hfits
  obtain ⟨es, hes⟩ := Datum.toHostEntries_of_hasType htyped
  have hall := Datum.forall₂_of_toHostEntries hes
  have hvs : Datum.toHostAll (s.contentAt w.storage).keys w.type.keyType =
      .ok (es.map Prod.fst) := by
    rw [hcontent, ht]
    refine Datum.toHostAll_eq_ok_iff.mpr ?_
    rw [Content.keys, List.forall₂_map_left_iff, List.forall₂_map_right_iff]
    exact hall.imp fun d v => And.left
  refine ⟨es, hlive.step_toHost ?_, h.yields builtin hw hl hvs, ?_, ?_, ?_⟩
  · rw [hcontent, ht]
    show (Datum.toHostEntries ds k t >>= fun es => Except.ok (HostValue.dict es)) = _
    rw [hes]
    rfl
  · rw [hlive.step_size, hcontent, Content.size, Content.keys, List.length_map, hall.length_eq]
  · exact fun v hv => h.step_contains hw hl hn hvs v.1 (List.mem_map_of_mem hv)
  · intro v hv
    obtain ⟨d, hd, hkey, hvalue⟩ := forall₂_mem_right hall hv
    have hkeys : d.1 ∈ (s.contentAt w.storage).keys := by
      rw [hcontent]
      exact List.mem_map_of_mem hd
    have hfate : KeyFate w.type.keyType v.1 (some d.1) := h.keyFate hw hn hkeys (by rwa [ht])
    rw [ht] at hfate
    exact hlive.step_get ht hcontent hfits hd hfate hvalue

end

/-! ## Every run -/

/-- After any operations the views of a live container whose keys are no NaNs in the
32-bit format agree. The host value of a map is a dict with the keys that an
iterator gives, in this order, and as many as the size says; each of them is a
member, and a lookup finds the value that the dict has under it. The host value
of a set has the items that an iterator gives, which are all members, and
discarding them leaves the set empty. -/
theorem views_agree (ops : List Operation) (id : String) (w : Wrapper)
    (hw : (empty.after builtin ops).wrappers.lookup id = some w)
    (hl : (empty.after builtin ops).isLive w.storage = true)
    (hn : ∀ d ∈ ((empty.after builtin ops).contentAt w.storage).keys, d.NumberIfSingle) :
    (∀ k t, w.type = .map k t → ∃ entries, MapViews (empty.after builtin ops) id entries) ∧
      ∀ e, w.type = .set e → ∃ items, SetViews (empty.after builtin ops) id items := by
  obtain ⟨types, h⟩ := wellTyped_after builtin ops
  exact ⟨fun _ _ ht => h.mapViews hw hl hn ht, fun _ ht => h.setViews hw hl hn ht⟩

/-- A map from numbers in the 32-bit format, among them both zeros and an integer that
is rounded. -/
theorem views_agree_zeros :
    let type : WrappedType := .map (.primitive .float32) (.set (.primitive .int32))
    let s := empty.after builtin
      [.create "m" type .permissive (.host (.dict
        [(.float (Word.ofParts true 0), .set [.int 3, .int 1]), (.int 16777217, .set [])])),
       .create "n" type .strict (.alias "m" none),
       .put "n" (.int 0) (.set [.int 2])]
    ∃ entries, MapViews s "n" entries := by
  intro type s
  refine (views_agree _ "n" ⟨type, .strict, 0, false⟩ rfl rfl ?_).1 _ _ rfl
  refine List.forall_mem_cons.mpr ⟨rfl, ?_⟩
  exact List.forall_mem_cons.mpr ⟨rfl, List.forall_mem_singleton.mpr rfl⟩

end Store

end WrapGen
