import WrapGen.Proofs.Bundle.Classes
import WrapGen.Proofs.Bundle.Methods
import WrapGen.Proofs.Execution.Merged
import WrapGen.Proofs.Wrapper.Effect
import WrapGen.Proofs.Wrapper.Live

/-!
# Generated methods and operations on wrappers

The methods of a generated class and the operations on a wrapper of a store do
the same to one container. Over the built-in catalog, for every type of keys and
of values, every live container with a content of its type, and every argument
(`wrapper_methods_agree`):

* the membership tests give one answer, and the removals leave one content;
* an insertion that succeeds as an operation succeeds as a method that makes the
  same checks, and leaves the same content;
* a lookup ends as a type error, as a key error or with a value in both, and the
  method gives the value with its sets and dicts filled one by one. It is the
  value itself exactly if no set and no dict in it has two equal members or keys:
  a container in storage tells the two zeros apart, and a host set does not
  (`not_getitem_eq_get`).
-/
namespace WrapGen.Bundle

open Binary Code Execution

/-! ## What it is to agree -/

/-- A call of a method raises an exception. -/
def Raises (c : ClassDef) (pointer name : String) (args : List Val) (content : Content)
    (exception : String) : Prop :=
  ∃ content', Answers c pointer name args content (.raised exception content')

/-- The methods of a class, which checks insertions so, do to a set what the
operations on a wrapper of it do. -/
structure SetMethodsAgree (c : ClassDef) (insertion : Insertion) (s : Store) (id : String)
    (w : Wrapper) (content : Content) : Prop where
  contains : ∀ v, ∃ b, s.run .builtin (.contains id v) = .ok (s, .flag b) ∧
    Answers c Vocabulary.set.pointer "__contains__" [.host v] content
      (.returned (.ofBool b) content)
  discard : ∀ v, ∃ s' n content', s.run .builtin (.discard id v) = .ok (s', .count n) ∧
    s'.contents[w.storage]? = some content' ∧
    Answers c Vocabulary.set.pointer "discard" [.host v] content
      (.returned (.host .none) content')
  add : w.insertion = insertion → ∀ v s' a, s.run .builtin (.add id v) = .ok (s', a) →
    ∃ content', s'.contents[w.storage]? = some content' ∧
      Answers c Vocabulary.set.pointer "add" [.host v] content (.returned (.host .none) content')

/-- The methods of a class, which checks insertions so, do to a map what the
operations on a wrapper of it do. -/
structure MapMethodsAgree (c : ClassDef) (insertion : Insertion) (s : Store) (id : String)
    (w : Wrapper) (content : Content) : Prop where
  contains : ∀ v, ∃ b, s.run .builtin (.contains id v) = .ok (s, .flag b) ∧
    Answers c Vocabulary.map.pointer "__contains__" [.host v] content
      (.returned (.ofBool b) content)
  delete : ∀ v, ∃ s' n content', s.run .builtin (.delete id v) = .ok (s', .count n) ∧
    s'.contents[w.storage]? = some content' ∧
    Answers c Vocabulary.map.pointer "__delitem__" [.host v] content
      (.returned (.host .none) content')
  get : ∀ v s' x, s.run .builtin (.get id v) = .ok (s', .value x) →
    Answers c Vocabulary.map.pointer "__getitem__" [.host v] content
      (.returned (.host x.merged) content) ∧
    (Answers c Vocabulary.map.pointer "__getitem__" [.host v] content
      (.returned (.host x) content) ↔ x.distinct = true)
  typeError : ∀ v, Raises c Vocabulary.map.pointer "__getitem__" [.host v] content "TypeError" ↔
    ∃ expected role found, s.run .builtin (.get id v) =
      .error (.fault (.wrongKind expected role found))
  keyError : ∀ v, Raises c Vocabulary.map.pointer "__getitem__" [.host v] content "KeyError" ↔
    ∃ key, s.run .builtin (.get id v) = .error (.fault (.absentKey key))
  put : w.insertion = insertion → ∀ key v s' a,
    s.run .builtin (.put id key v) = .ok (s', a) →
    ∃ content', s'.contents[w.storage]? = some content' ∧
      Answers c Vocabulary.map.pointer "__setitem__" [.host key, .host v] content
        (.returned (.host .none) content')

/-! ## Sets -/

section
variable {samples : Samples} {insertion : Insertion} {c : ClassDef} {s : Store} {id : String}
  {w : Wrapper} {content : Content}

theorem setMethodsAgree {e : ElementType} (he : e.isKey = true)
    (hc : IsSetClass ⟨.builtin, samples, insertion⟩ e c) (h : s.Live id w content)
    (ht : w.type = .set e) : SetMethodsAgree c insertion s id w content := by
  obtain ⟨names, value, accepted, guards, hv, ha, hg, rfl⟩ := hc.eq
  obtain ⟨hb, -, rfl⟩ := Argument.built_of (by decide) hv
  have hk : w.type.keyType = value.type := by rw [ht]; rfl
  have hs : "s" ∈ Argument.localNames := by decide
  have hv : "v" ∈ Argument.localNames := by decide
  obtain ⟨items, rfl⟩ := h.exists_items ht
  refine ⟨fun v => ?_, fun v => ?_, fun hi v s' a hr => ?_⟩
  · obtain ⟨stored?, hfate⟩ := exists_keyFate he v
    exact ⟨_, h.contains (hk ▸ hfate), contains_answers rfl hb ha hs (by decide) hfate⟩
  · obtain ⟨stored?, hfate⟩ := exists_keyFate he v
    obtain ⟨s', n, hr, hs'⟩ := h.remove (hk ▸ hfate)
    refine ⟨s', n, _, ?_, hs', remove_answers rfl rfl hb ha hs (by decide) hv (by decide) hfate⟩
    rw [Store.run, Store.setWrapper_bind h.bound ht]
    exact hr
  · obtain ⟨x, hx, hstrict, hs'⟩ := h.add ht hr
    exact ⟨_, hs', add_answers rfl hb hg (fun hs => hstrict (hi.trans hs)) hx⟩

end

/-! ## Maps -/

/-- The ends of a lookup, as an operation and as a method. -/
inductive LookupAgrees (c : ClassDef) (s : Store) (id : String) (v : HostValue)
    (content : Content) : Prop
  | mistyped {expected role found : String}
      (hrun : s.run .builtin (.get id v) = .error (.fault (.wrongKind expected role found)))
      (hcall : Answers c Vocabulary.map.pointer "__getitem__" [.host v] content
        (.raised "TypeError" content))
  | absent (hrun : s.run .builtin (.get id v) = .error (.fault (.absentKey v)))
      (hcall : Answers c Vocabulary.map.pointer "__getitem__" [.host v] content
        (.raised "KeyError" content))
  | found {x : HostValue} (hrun : s.run .builtin (.get id v) = .ok (s, .value x))
      (hcall : Answers c Vocabulary.map.pointer "__getitem__" [.host v] content
        (.returned (.host x.merged) content))

section
variable {c : ClassDef} {s : Store} {id : String} {w : Wrapper} {content : Content}
  {v x : HostValue}

theorem LookupAgrees.get (h : LookupAgrees c s id v content) {s' : Store}
    (hr : s.run .builtin (.get id v) = .ok (s', .value x)) :
    Answers c Vocabulary.map.pointer "__getitem__" [.host v] content
      (.returned (.host x.merged) content) := by
  cases h with
  | mistyped hrun _ => cases hrun.symm.trans hr
  | absent hrun _ => cases hrun.symm.trans hr
  | found hrun hcall =>
    cases hrun.symm.trans hr
    exact hcall

theorem LookupAgrees.typeError_iff (h : LookupAgrees c s id v content) :
    Raises c Vocabulary.map.pointer "__getitem__" [.host v] content "TypeError" ↔
      ∃ expected role found, s.run .builtin (.get id v) =
        .error (.fault (.wrongKind expected role found)) := by
  constructor
  · rintro ⟨content', hraise⟩
    cases h with
    | mistyped hrun _ => exact ⟨_, _, _, hrun⟩
    | absent _ hcall => exact absurd (hcall.unique hraise) (by simp)
    | found _ hcall => cases hcall.unique hraise
  · rintro ⟨expected, role, found, hr⟩
    cases h with
    | mistyped _ hcall => exact ⟨_, hcall⟩
    | absent hrun _ => cases hrun.symm.trans hr
    | found hrun _ => cases hrun.symm.trans hr

theorem LookupAgrees.keyError_iff (h : LookupAgrees c s id v content) :
    Raises c Vocabulary.map.pointer "__getitem__" [.host v] content "KeyError" ↔
      ∃ key, s.run .builtin (.get id v) = .error (.fault (.absentKey key)) := by
  constructor
  · rintro ⟨content', hraise⟩
    cases h with
    | mistyped _ hcall => exact absurd (hcall.unique hraise) (by simp)
    | absent hrun _ => exact ⟨_, hrun⟩
    | found _ hcall => cases hcall.unique hraise
  · rintro ⟨key, hr⟩
    cases h with
    | mistyped hrun _ => cases hrun.symm.trans hr
    | absent _ hcall => exact ⟨_, hcall⟩
    | found hrun _ => cases hrun.symm.trans hr

variable {samples : Samples} {insertion : Insertion} {k t : ElementType}

theorem lookupAgrees {key : Argument} {accepted : Expr} {valueStorage : String} {found : Recipe}
    (hm : c.methods.find? (fun f => f.name == "__getitem__") =
      some (getMethod key accepted valueStorage found))
    (hb : key.Built) (ha : typeCheck .builtin key.expr key.type = .ok accepted)
    (hf : Catalog.builtin.toHost (.name "v") t = .ok found)
    (he : key.type.isKey = true) (h : s.Live id w content) (ht : w.type = .map key.type t)
    (v : HostValue) : LookupAgrees c s id v content := by
  obtain ⟨entries, rfl, htyped⟩ := h.exists_entries ht
  obtain ⟨stored?, hfate⟩ := exists_keyFate he v
  have hfate' := hfate
  cases hfate with
  | mistyped hk =>
    obtain ⟨human, hrun⟩ := h.get_mistyped ht hk
    exact .mistyped hrun (get_mistyped hm hb ha hf hk)
  | overflow hk hp hi hd =>
    exact .absent (h.get_absent ht hk hfate' rfl) (get_overflow hm hb ha hf hk hp hi hd)
  | @stored d hk hd =>
    cases hget : (Content.map entries).get? d with
    | none => exact .absent (h.get_absent ht hk hfate' hget) (get_absent hm hb ha hf hk hd hget)
    | some y =>
      have hy : y.hasType t = true := Content.hasType_of_get? htyped hget
      obtain ⟨x, hx⟩ := Datum.toHost_of_hasType hy
      exact .found (h.get_found ht hk hfate' hget hx)
        (get_answers hm hb ha hf hk hd hget ⟨hy, x, hx, rfl⟩)

theorem mapMethodsAgree (hk : k.isKey = true)
    (hc : IsMapClass ⟨.builtin, samples, insertion⟩ k t c) (h : s.Live id w content)
    (ht : w.type = .map k t) : MapMethodsAgree c insertion s id w content := by
  obtain ⟨names, key, value, found, accepted, keyGuards, valueGuards, hkey, hvalue, hfound, ha, hkg,
    hvg, rfl⟩ := hc.eq
  obtain ⟨hkb, hkn, rfl⟩ := Argument.built_of (by decide) hkey
  obtain ⟨hvb, hvn, rfl⟩ := Argument.built_of (by decide) hvalue
  have hkt : w.type.keyType = key.type := by rw [ht]; rfl
  have hlocal : "k" ∈ Argument.localNames := by decide
  have hget : ∀ v, LookupAgrees _ s id v content := lookupAgrees
    (c := mapClass names.wrapper key value accepted (keyGuards ++ valueGuards)
      names.value.storage found) rfl hkb ha hfound hk h ht
  refine ⟨fun v => ?_, fun v => ?_, fun v s' x hr => ?_, fun v => (hget v).typeError_iff,
    fun v => (hget v).keyError_iff, fun hi a b s' answer hr => ?_⟩
  · obtain ⟨stored?, hfate⟩ := exists_keyFate hk v
    exact ⟨_, h.contains (hkt ▸ hfate), contains_answers rfl hkb ha hlocal (by decide) hfate⟩
  · obtain ⟨stored?, hfate⟩ := exists_keyFate hk v
    obtain ⟨s', n, hr, hs'⟩ := h.remove (hkt ▸ hfate)
    refine ⟨s', n, _, ?_, hs',
      remove_answers rfl rfl hkb ha hlocal (by decide) hlocal (by decide) hfate⟩
    rw [Store.run, Store.mapWrapper_bind h.bound ht]
    exact hr
  · have hcall := (hget v).get hr
    refine ⟨hcall, ?_⟩
    rw [← HostValue.merged_eq_self_iff]
    constructor
    · intro hx
      simpa using hcall.unique hx
    · intro hx
      rwa [hx] at hcall
  · obtain ⟨x, y, hx, hy, hstrict, hs'⟩ := h.put ht hr
    obtain ⟨entries, rfl, -⟩ := h.exists_entries ht
    exact ⟨_, hs', put_answers rfl hkb hvb hkn hvn hkg hvg (fun hs => (hstrict (hi.trans hs)).1)
      (fun hs => (hstrict (hi.trans hs)).2) hx hy⟩

end

/-! ## Both kinds of wrappers -/

/-- Over the built-in catalog the methods that are generated for a type of ordered
keys are there, they are in every bundle for the type, and on every live container
with a content of the type they do what the operations on its wrapper do. -/
theorem wrapper_methods_agree (samples : Samples) (insertion : Insertion) :
    let g : Generator := ⟨.builtin, samples, insertion⟩
    (∀ e : ElementType, e.isKey = true →
      (∃ c, IsSetClass g e c) ∧ ∀ c, IsSetClass g e c →
        (∀ b, g.setWrapper e = .ok b → .classDef c ∈ b.implementation) ∧
        ∀ (s : Store) (id : String) (w : Wrapper) (content : Content),
          s.Live id w content → w.type = .set e →
          SetMethodsAgree c insertion s id w content) ∧
    (∀ k t : ElementType, k.isKey = true →
      (∃ c, IsMapClass g k t c) ∧ ∀ c, IsMapClass g k t c →
        (∀ b, g.mapWrapper k t = .ok b → .classDef c ∈ b.implementation) ∧
        ∀ (s : Store) (id : String) (w : Wrapper) (content : Content),
          s.Live id w content → w.type = .map k t →
          MapMethodsAgree c insertion s id w content) := by
  intro g
  constructor
  · intro e he
    refine ⟨exists_setClass samples insertion e, fun c hc => ⟨fun b hb => hc.mem_bundle hb, ?_⟩⟩
    exact fun s id w content hl ht => setMethodsAgree he hc hl ht
  · intro k t hk
    refine ⟨exists_mapClass samples insertion k t,
      fun c hc => ⟨fun b hb => hc.mem_bundle hb, ?_⟩⟩
    exact fun s id w content hl ht => mapMethodsAgree hk hc hl ht

/-- A map from texts to sets: a key that is there, one that is not, and one of
another kind. -/
theorem wrapper_methods_agree_map :
    let content : Content := .map [(.str "a", .set [.float64 Word.zero])]
    ∃ c, IsMapClass ⟨.builtin, .builtin, .strict⟩ (.primitive .str) (.set (.primitive .float64)) c ∧
      Answers c "map_ptr" "__getitem__" [.host (.str "a")] content
        (.returned (.host (.set [.float Word.zero])) content) ∧
      Raises c "map_ptr" "__getitem__" [.host (.str "b")] content "KeyError" ∧
      Raises c "map_ptr" "__getitem__" [.host (.int 3)] content "TypeError" ∧
      Answers c "map_ptr" "__delitem__" [.host (.str "a")] content
        (.returned (.host .none) (.map [])) := by
  intro content
  let w : Wrapper :=
    ⟨.map (.primitive .str) (.set (.primitive .float64)), .strict, 0, true⟩
  let s : Store := ⟨[content], [("m", w)], []⟩
  obtain ⟨⟨c, hc⟩, hagree⟩ := (wrapper_methods_agree .builtin .strict).2 (.primitive .str)
    (.set (.primitive .float64)) rfl
  have h := (hagree c hc).2 s "m" w content ⟨rfl, rfl, rfl, rfl⟩ rfl
  refine ⟨c, hc, ?_, ?_, ?_, ?_⟩
  · exact ((h.get (.str "a") s (.set [.float Word.zero]) rfl).2).mpr rfl
  · exact (h.keyError (.str "b")).mpr ⟨_, rfl⟩
  · exact (h.typeError (.int 3)).mpr ⟨_, _, _, rfl⟩
  · obtain ⟨s', n, content', hr, hs', hcall⟩ := h.delete (.str "a")
    cases hr
    cases hs'
    exact hcall

/-- A lookup under which a set of both zeros is found answers with both, and the
method makes a set of one: not every method gives the value that the lookup gives. -/
theorem not_getitem_eq_get : ¬ ∀ (samples : Samples) (insertion : Insertion) (k t : ElementType)
    (c : ClassDef) (s : Store) (id : String) (w : Wrapper) (content : Content) (v x : HostValue),
    k.isKey = true → IsMapClass ⟨.builtin, samples, insertion⟩ k t c → s.Live id w content →
    w.type = .map k t → s.run .builtin (.get id v) = .ok (s, .value x) →
    Answers c Vocabulary.map.pointer "__getitem__" [.host v] content
      (.returned (.host x) content) := by
  intro h
  let t : ElementType := .set (.primitive .float64)
  let content : Content :=
    .map [(.str "a", .set [.float64 (Word.ofParts true 0), .float64 Word.zero])]
  let w : Wrapper := ⟨.map (.primitive .str) t, .permissive, 0, true⟩
  let s : Store := ⟨[content], [("m", w)], []⟩
  let x : HostValue := .set [.float (Word.ofParts true 0), .float Word.zero]
  obtain ⟨c, hc⟩ := exists_mapClass .builtin .permissive (.primitive .str) t
  have hl : s.Live "m" w content := ⟨rfl, rfl, rfl, rfl⟩
  have hcall := h .builtin .permissive (.primitive .str) t c s "m" w content (.str "a") x rfl hc hl
    rfl rfl
  have hd : x.distinct = true :=
    (((mapMethodsAgree rfl hc hl rfl).get (.str "a") s x rfl).2).mp hcall
  have hn : x.distinct = false := by decide
  rw [hn] at hd
  cases hd

end WrapGen.Bundle
