import WrapGen.Proofs.Wrapper.Typed

/-!
# Looking for a key

Whether a value is a member of a map, what a lookup of it answers and what its
removal does are three questions, and there are three ways to answer all of them
(`Finding`): the kind of the value is none of keys; the value has no storage form
or one that the map does not hold; or the map holds its storage form in exactly
one entry, which is what a lookup answers from and what a removal takes out.

* `lookup_trichotomy`: one of the three, and only one, for every value.
-/
namespace WrapGen

open Catalog

/-! ## The entry of a key -/

/-- Removing the key of an item takes out this item alone. -/
theorem Ordered.Sorted.erase_append {α : Type} {key : α → Datum} {before after : List α} {x : α}
    (h : Ordered.Sorted key (before ++ x :: after)) :
    Ordered.erase key (key x) (before ++ x :: after) = before ++ after := by
  have hx : key x ∉ (before ++ after).map key := by
    have hnodup := h.nodup
    rw [List.map_append, List.map_cons, List.nodup_middle, ← List.map_append] at hnodup
    exact (List.nodup_cons.mp hnodup).1
  refine Eq.trans ?_ (Ordered.erase_of_not_contains hx)
  unfold Ordered.erase
  rw [List.filter_append, List.filter_append, List.filter_cons_of_neg]
  rw [Datum.compare_self]
  decide

namespace Content

variable {content : Content} {d y : Datum}

/-- What is found under a key is in one entry, and the key is not found without it. -/
theorem exists_entry {entries : List (Datum × Datum)} (hs : Ordered.Sorted Prod.fst entries)
    (hy : (map entries).get? d = some y) : ∃ before after,
      entries = before ++ (d, y) :: after ∧ (map entries).erase d = map (before ++ after) := by
  obtain ⟨⟨l, x⟩, hfind, rfl⟩ := Option.map_eq_some_iff.mp hy
  obtain ⟨hl, before, after, rfl, -⟩ := List.find?_eq_some_iff_append.mp hfind
  obtain rfl : d = l := Datum.eq_of_compare (beq_iff_eq.mp hl)
  exact ⟨before, after, rfl, congrArg map hs.erase_append⟩

/-- A value is a member of a map if something is found under its storage form. -/
theorem any_contains (entries : List (Datum × Datum)) (stored? : Option Datum) :
    stored?.any (map entries).contains = (stored?.bind (map entries).get?).isSome := by
  cases stored? with
  | none => rfl
  | some d => exact contains_map entries d

theorem get?_erase (content : Content) (d k : Datum) :
    (content.erase d).get? k = if k = d then none else content.get? k := by
  cases content with
  | set items =>
    show none = if k = d then none else none
    split <;> rfl
  | map entries =>
    show (Ordered.find? Prod.fst k (Ordered.erase Prod.fst d entries)).map Prod.snd = _
    rw [Ordered.find?_erase]
    split <;> rfl

end Content

namespace Store

/-! ## Three findings -/

section
variable (s : Store) (id : String) (w : Wrapper) (k t : ElementType) (key : HostValue)

/-- The kind of a value is none of keys: it is no member, a lookup fails in the
check, and a removal changes nothing. -/
structure Mistyped : Prop where
  rejected : builtin.acceptsValue key k = .ok false
  contains : s.step builtin (.contains id key) = (s, .flag false)
  get : ∃ human, s.step builtin (.get id key) =
    (s, .refused (.fault (.wrongKind human "keys" key.typeName)))
  delete : s.step builtin (.delete id key) = (s, .count (s.contentAt w.storage).size)

/-- The kind of a value is one of keys, but its storage form is not there, or there
is none because it is out of range: it is no member, a lookup does not find it,
and a removal changes nothing. -/
structure Absent : Prop where
  accepted : builtin.acceptsValue key k = .ok true
  missing : (∃ n p, k.toDatum key = .error (.outOfRange n p)) ∨
    ∃ d, k.toDatum key = .ok d ∧ d ∉ (s.contentAt w.storage).keys
  contains : s.step builtin (.contains id key) = (s, .flag false)
  get : s.step builtin (.get id key) = (s, .refused (.fault (.absentKey key)))
  delete : s.step builtin (.delete id key) = (s, .count (s.contentAt w.storage).size)

/-- The storage form `d` of a value is there in one entry, between `before` and
`after`: it is a member, a lookup answers with the value of the entry, and a
removal takes out this entry. After it the key is absent, and what has not the
same storage form is looked up as before. -/
structure Present (d y : Datum) (before after : List (Datum × Datum)) : Prop where
  accepted : builtin.acceptsValue key k = .ok true
  stored : k.toDatum key = .ok d
  entry : s.contentAt w.storage = .map (before ++ (d, y) :: after)
  contains : s.step builtin (.contains id key) = (s, .flag true)
  get : ∃ v, y.toHost t = .ok v ∧ s.step builtin (.get id key) = (s, .value v)
  delete : s.step builtin (.delete id key) =
    (s.setContent w.storage (.map (before ++ after)), .count (before ++ after).length)
  gone : Absent (s.step builtin (.delete id key)).1 id w k key
  others : ∀ other, k.toDatum other ≠ .ok d → ∀ op ∈ [.contains id other, .get id other],
    ((s.step builtin (.delete id key)).1.step builtin op).2 = (s.step builtin op).2

/-- What becomes of a value that is looked for in a map. -/
inductive Finding
  | mistyped
  | absent
  | present
  deriving DecidableEq

/-- What a finding says of all operations that look for a key. -/
def Finding.Meets : Finding → Prop
  | .mistyped => Mistyped s id w k key
  | .absent => Absent s id w k key
  | .present => ∃ d y before after, Present s id w k t key d y before after

end

/-! ## Each of them -/

section
variable {s : Store} {id : String} {w : Wrapper} {content : Content} {k t : ElementType}
  {key : HostValue} (h : Live s id w content) (ht : w.type = .map k t)
include h

theorem Live.contentAt_eq : s.contentAt w.storage = content := by
  rw [contentAt, h.holds]
  rfl

omit h in
theorem keyFate_map (ht : w.type = .map k t) {stored? : Option Datum}
    (hk : KeyFate k key stored?) : KeyFate w.type.keyType key stored? := by
  rwa [ht]

include ht

theorem Live.mistyped (hb : builtin.acceptsValue key k = .ok false) : Mistyped s id w k key where
  rejected := hb
  contains := step_of_run_ok (h.contains (keyFate_map ht (.mistyped hb)))
  get := by
    obtain ⟨human, hget⟩ := h.get_mistyped ht hb
    exact ⟨human, step_of_run_error hget⟩
  delete := by
    refine step_of_run_ok ((h.run_delete ht).trans ?_)
    rw [h.contentAt_eq]
    exact h.remove_missing (keyFate_map ht (.mistyped hb))

section
variable {entries : List (Datum × Datum)} (hentries : content = .map entries)
  {stored? : Option Datum} (hk : KeyFate k key stored?)
include hentries hk

theorem Live.answer_contains :
    s.step builtin (.contains id key) = (s, .flag (stored?.bind content.get?).isSome) := by
  subst hentries
  rw [step_of_run_ok (h.contains (keyFate_map ht hk)), Content.any_contains]

theorem Live.absent (hb : builtin.acceptsValue key k = .ok true)
    (hnone : stored?.bind content.get? = none) : Absent s id w k key where
  accepted := hb
  missing := by
    cases hk with
    | mistyped hb' => cases hb.symm.trans hb'
    | overflow _ _ _ hd => exact Or.inl ⟨_, _, hd⟩
    | @stored d _ hd =>
      refine Or.inr ⟨d, hd, fun hm => ?_⟩
      have hget : content.get? d = none := hnone
      rw [h.contentAt_eq, hentries] at hm
      have hsome := Content.contains_map entries d
      rw [← hentries, hget, hentries] at hsome
      exact Bool.false_ne_true (hsome.symm.trans (Ordered.contains_iff.mpr (by rwa [List.map_id])))
  contains := by
    rw [h.answer_contains ht hentries hk, hnone]
    rfl
  get := step_of_run_error (h.get_absent ht hb hk hnone)
  delete := by
    refine step_of_run_ok ((h.run_delete ht).trans ?_)
    rw [h.contentAt_eq]
    refine h.remove_absent (keyFate_map ht hk) ?_
    rw [hentries, Content.any_contains, ← hentries, hnone]
    rfl

end

/-- A lookup sees no more of a map than what is found under the key. -/
theorem Live.answer_get_congr {s' : Store} {content' : Content} (h' : Live s' id w content')
    {stored? : Option Datum} (hk : KeyFate k key stored?)
    (he : stored?.bind content'.get? = stored?.bind content.get?) :
    (s'.step builtin (.get id key)).2 = (s.step builtin (.get id key)).2 := by
  unfold step
  rw [h.get ht hk, h'.get ht hk, he]
  cases builtin.check key k "keys" with
  | error f => rfl
  | ok =>
    cases stored?.bind content.get? with
    | none => rfl
    | some y =>
      dsimp only
      cases y.toHost t <;> rfl

theorem Live.present {entries : List (Datum × Datum)} (hentries : content = .map entries)
    (hs : Ordered.Sorted Prod.fst entries) (hkey : k.isKey = true)
    (hb : builtin.acceptsValue key k = .ok true) {d y : Datum}
    (hd : k.toDatum key = .ok d) (hy : content.get? d = some y) :
    ∃ before after, Present s id w k t key d y before after := by
  have hk : KeyFate k key (some d) := .stored hb hd
  obtain ⟨before, after, hsplit, herase⟩ := Content.exists_entry hs (hentries ▸ hy)
  rw [← hentries] at herase
  have htyped := h.typed
  rw [ht, hentries] at htyped
  obtain ⟨v, hv⟩ := Datum.toHost_of_hasType (Content.hasType_of_get? htyped (hentries ▸ hy))
  have hdelete : s.step builtin (.delete id key) =
      (s.setContent w.storage (.map (before ++ after)), .count (before ++ after).length) := by
    refine step_of_run_ok ((h.run_delete ht).trans ?_)
    rw [h.remove_stored (keyFate_map ht hk), herase, Content.size, Content.keys, List.length_map]
  have h' : Live (s.setContent w.storage (.map (before ++ after))) id w
      (.map (before ++ after)) := by
    refine h.setContent ?_
    rw [← herase]
    exact Content.hasType_erase h.typed d
  have hget : ∀ l, (Content.map (before ++ after)).get? l =
      if l = d then none else content.get? l := by
    intro l
    rw [← herase, Content.get?_erase]
  have hget' := step_of_run_ok (h.get_found ht hb hk hy hv)
  refine ⟨before, after, hb, hd, ?_, ?_, ⟨v, hv, hget'⟩, hdelete, ?_, ?_⟩
  · rw [h.contentAt_eq, hentries, hsplit]
  · rw [h.answer_contains ht hentries hk, Option.bind_some, hy]
    rfl
  · rw [hdelete]
    refine h'.absent ht rfl hk hb ?_
    rw [Option.bind_some, hget, if_pos rfl]
  · intro other hother
    obtain ⟨stored?, hstored⟩ := exists_keyFate hkey other
    have he : stored?.bind (Content.map (before ++ after)).get? = stored?.bind content.get? := by
      cases hstored with
      | mistyped => rfl
      | overflow => rfl
      | stored hb' hd' =>
        rw [Option.bind_some, Option.bind_some, hget, if_neg]
        rintro rfl
        exact hother hd'
    rw [hdelete]
    refine List.forall_mem_cons.mpr ⟨?_, List.forall_mem_singleton.mpr ?_⟩
    · rw [h.answer_contains ht hentries hstored, h'.answer_contains ht rfl hstored, he]
    · exact h.answer_get_congr ht h' hstored he

end

/-! ## Every value -/

/-- Whether a value is of a kind of keys. -/
def Finding.isAccepted : Finding → Bool
  | .mistyped => false
  | .absent | .present => true

/-- Whether a value is a member. -/
def Finding.isMember : Finding → Bool
  | .present => true
  | .mistyped | .absent => false

theorem Finding.eq_of_flags {f g : Finding} (ha : f.isAccepted = g.isAccepted)
    (hm : f.isMember = g.isMember) : g = f := by
  revert ha hm
  cases f <;> cases g <;> decide

/-- A finding is told from the others by the kind of the value and its membership. -/
theorem Finding.Meets.flags {s : Store} {id : String} {w : Wrapper} {k t : ElementType}
    {key : HostValue} {f : Finding} (hf : f.Meets s id w k t key) :
    builtin.acceptsValue key k = .ok f.isAccepted ∧
      s.step builtin (.contains id key) = (s, .flag f.isMember) := by
  cases f with
  | mistyped => exact ⟨Mistyped.rejected hf, Mistyped.contains hf⟩
  | absent => exact ⟨Absent.accepted hf, Absent.contains hf⟩
  | present =>
    obtain ⟨d, y, before, after, hf⟩ := hf
    exact ⟨hf.accepted, hf.contains⟩

theorem Finding.Meets.unique {s : Store} {id : String} {w : Wrapper} {k t : ElementType}
    {key : HostValue} {f g : Finding} (hf : f.Meets s id w k t key)
    (hg : g.Meets s id w k t key) : g = f := by
  obtain ⟨hfa, hfm⟩ := hf.flags
  obtain ⟨hga, hgm⟩ := hg.flags
  exact eq_of_flags (Except.ok.inj (hfa.symm.trans hga))
    (Answer.flag.inj (congrArg Prod.snd (hfm.symm.trans hgm)))

/-- After any operations every value that is looked for in a live map meets one
finding, and only one: it is mistyped, it is absent, or it is present. -/
theorem lookup_trichotomy (ops : List Operation) (id : String) (w : Wrapper) (k t : ElementType)
    (hw : (empty.after .builtin ops).wrappers.lookup id = some w) (ht : w.type = .map k t)
    (hl : (empty.after .builtin ops).isLive w.storage = true) (key : HostValue) :
    ∃! f : Finding, f.Meets (empty.after .builtin ops) id w k t key := by
  obtain ⟨types, h⟩ := wellTyped_after .builtin ops
  have hlive := h.live hw hl
  obtain ⟨entries, hentries, -⟩ := hlive.exists_entries ht
  have hfits := (h.toTyping.contentAt (h.lookup hw)).2
  rw [hentries, ht] at hfits
  have hkey : k.isKey = true := by
    have hkeys := h.keys _ (List.mem_of_getElem? (h.lookup hw))
    rwa [ht] at hkeys
  refine existsUnique_of_exists_of_unique ?_ fun f g hf hg => hg.unique hf
  obtain ⟨stored?, hk⟩ := exists_keyFate hkey key
  cases hk with
  | mistyped hb => exact ⟨.mistyped, hlive.mistyped ht hb⟩
  | overflow hb hp hi hd => exact ⟨.absent, hlive.absent ht hentries (.overflow hb hp hi hd) hb rfl⟩
  | @stored d hb hd =>
    cases hget : ((empty.after .builtin ops).contentAt w.storage).get? d with
    | none => exact ⟨.absent, hlive.absent ht hentries (.stored hb hd) hb hget⟩
    | some y =>
      obtain ⟨before, after, hpresent⟩ := hlive.present ht hentries hfits hkey hb hd hget
      exact ⟨.present, d, y, before, after, hpresent⟩

/-- A key out of range, looked for in an alias of a map that has lost a key. -/
theorem lookup_trichotomy_alias :
    let type : WrappedType := .map (.primitive .int32) (.primitive .str)
    let s := empty.after .builtin
      [.create "m" type .permissive (.host (.dict [(.int 1, .str "a"), (.int 2, .str "b")])),
       .create "n" type .strict (.alias "m" none),
       .delete "m" (.int 1)]
    ∃! f : Finding, f.Meets s "n" ⟨type, .strict, 0, false⟩ (.primitive .int32)
      (.primitive .str) (.int 4294967296) := by
  intro type s
  exact lookup_trichotomy _ "n" ⟨type, .strict, 0, false⟩ _ _ rfl rfl rfl (.int 4294967296)

end Store

end WrapGen
