import WrapGen.Proofs.Value.Equality
import WrapGen.Proofs.Wrapper.Typed

/-!
# Equal keys in a container

Two keys that are equal to the host and that nothing parts (`HostValue.parted`) are
one key to every operation (`Interchangeable`). Two that are parted are two keys:
inserting one does not make the other a member (`Apart`).

* `equal_keys_interchangeable`: the one or the other, for every live container.
-/
namespace WrapGen

open Binary Catalog

/-- Accepted keys with the same storage form have the same fate. -/
theorem KeyFate.congr {t : ElementType} {a b : HostValue} {stored? : Option Datum}
    (hk : KeyFate t a stored?) (ha : builtin.acceptsValue a t = .ok true)
    (hb : builtin.acceptsValue b t = .ok true) (he : t.toDatum a = t.toDatum b) :
    KeyFate t b stored? := by
  cases hk with
  | mistyped h => cases ha.symm.trans h
  | overflow _ ht hp hd => exact .overflow hb ht hp (he ▸ hd)
  | stored _ hd => exact .stored hb (he ▸ hd)

namespace Content

/-- An insertion makes no other key a member. -/
theorem contains_of_insert {content content' : Content} {x d : Datum}
    (hkeys : content'.keys = Ordered.insert id x content.keys) (hd : d ≠ x) :
    content'.contains d = content.contains d := by
  rw [contains, contains, hkeys, Ordered.contains, Ordered.find?_insert]
  exact congrArg Option.isSome (if_neg hd)

theorem add_add (content : Content) (x : Datum) : (content.add x).add x = content.add x := by
  cases content with
  | set items => exact congrArg set (Ordered.insert_insert x items)
  | map entries => rfl

theorem keys_put (entries : List (Datum × Datum)) (x y : Datum) :
    ((map entries).put x y).keys = Ordered.insert id x (map entries).keys :=
  Ordered.map_insert (x, y) entries

/-- A second assignment under a key brings in no further entry. -/
theorem size_put_put (entries : List (Datum × Datum)) (x y z : Datum) :
    (((map entries).put x y).put x z).size = ((map entries).put x y).size := by
  have hinner := keys_put entries x y
  have houter := keys_put (Ordered.insert Prod.fst (x, y) entries) x z
  rw [size, size]
  refine congrArg List.length (houter.trans ?_)
  show Ordered.insert id x ((map entries).put x y).keys = _
  rw [hinner, Ordered.insert_insert]

end Content

namespace Store

theorem run_of_step {c : Catalog} {s s' : Store} {op : Operation} {a : Answer}
    (h : s.step c op = (s', a)) (ha : ∀ r, a ≠ .refused r) : s.run c op = .ok (s', a) := by
  unfold step at h
  cases hr : s.run c op with
  | ok result =>
    rw [hr] at h
    rw [← h]
  | error r =>
    rw [hr] at h
    cases h
    exact absurd rfl (ha r)

/-! ## One key or two -/

section
variable (s : Store) (id : String) (a b : HostValue)

/-- Two values are one key of a container. -/
structure Interchangeable : Prop where
  contains : s.step builtin (.contains id a) = s.step builtin (.contains id b)
  discard : s.step builtin (.discard id a) = s.step builtin (.discard id b)
  delete : s.step builtin (.delete id a) = s.step builtin (.delete id b)
  /-- Lookups of both find the same value, if any. -/
  get : ∀ v, s.step builtin (.get id a) = (s, .value v) ↔ s.step builtin (.get id b) = (s, .value v)
  /-- Adding one after the other changes nothing. -/
  add : ∀ s' n, s.step builtin (.add id a) = (s', .count n) →
    s'.step builtin (.add id b) = (s', .count n)
  /-- An assignment under one after one under the other keeps the size. -/
  put : ∀ v u s' n s'' m, s.step builtin (.put id a v) = (s', .count n) →
    s'.step builtin (.put id b u) = (s'', .count m) → m = n

/-- Two values are two keys of a container: inserting the first does not make the
second a member. -/
structure Apart : Prop where
  add : ∀ s' n, s.step builtin (.add id a) = (s', .count n) →
    (s'.step builtin (.contains id b)).2 = (s.step builtin (.contains id b)).2
  put : ∀ v s' n, s.step builtin (.put id a v) = (s', .count n) →
    (s'.step builtin (.contains id b)).2 = (s.step builtin (.contains id b)).2

end

section
variable {s : Store} {id : String} {w : Wrapper} {content : Content} {a b : HostValue}
  (h : Live s id w content)
include h

/-- An insertion into a set that succeeds, and the store that it leaves. -/
theorem Live.added {e : ElementType} (ht : w.type = .set e) {s' : Store} {n : Nat}
    (hr : s.step builtin (.add id a) = (s', .count n)) : ∃ x, e.toDatum a = .ok x ∧
      Live s' id w (content.add x) ∧ n = (content.add x).size := by
  have hrun := run_of_step hr nofun
  rw [h.run_add ht] at hrun
  obtain ⟨-, -, hrun⟩ := bind_eq_ok hrun
  obtain ⟨x, hx, hrun⟩ := bind_eq_ok hrun
  cases hrun
  have htyped := h.typed
  rw [ht] at htyped
  refine ⟨x, refuse_ok hx, h.setContent ?_, rfl⟩
  rw [ht]
  exact Content.hasType_add htyped (ElementType.hasType_of_toDatum (refuse_ok hx))

/-- An assignment that succeeds, and the store that it leaves. -/
theorem Live.assigned {k t : ElementType} (ht : w.type = .map k t) {v : HostValue} {s' : Store}
    {n : Nat} (hr : s.step builtin (.put id a v) = (s', .count n)) : ∃ x y, k.toDatum a = .ok x ∧
      Live s' id w (content.put x y) ∧ n = (content.put x y).size := by
  have hrun := run_of_step hr nofun
  rw [h.run_put ht] at hrun
  obtain ⟨-, -, hrun⟩ := bind_eq_ok hrun
  obtain ⟨-, -, hrun⟩ := bind_eq_ok hrun
  obtain ⟨x, hx, hrun⟩ := bind_eq_ok hrun
  obtain ⟨y, hy, hrun⟩ := bind_eq_ok hrun
  cases hrun
  have htyped := h.typed
  rw [ht] at htyped
  refine ⟨x, y, refuse_ok hx, h.setContent ?_, rfl⟩
  rw [ht]
  exact Content.hasType_put htyped (ElementType.hasType_of_toDatum (refuse_ok hx))
    (ElementType.hasType_of_toDatum (refuse_ok hy))

/-- A lookup that finds a value finds it under the storage form of the key. -/
theorem Live.get_value_iff {k t : ElementType} (ht : w.type = .map k t)
    (ha : builtin.acceptsValue a k = .ok true) {stored? : Option Datum} (hk : KeyFate k a stored?)
    {v : HostValue} : s.step builtin (.get id a) = (s, .value v) ↔
      ∃ y, stored?.bind content.get? = some y ∧ y.toHost t = .ok v := by
  cases hy : stored?.bind content.get? with
  | none =>
    rw [step_of_run_error (h.get_absent ht ha hk hy)]
    exact ⟨nofun, nofun⟩
  | some y =>
    obtain ⟨d, rfl, hd⟩ := Option.bind_eq_some_iff.mp hy
    constructor
    · intro hr
      have hrun := run_of_step hr nofun
      rw [h.get ht hk, check_of_accepted ha, hy] at hrun
      obtain ⟨-, -, hrun⟩ := bind_eq_ok hrun
      obtain ⟨x, hx, hrun⟩ := bind_eq_ok hrun
      cases hrun
      exact ⟨y, rfl, refuse_ok hx⟩
    · rintro ⟨y', hy', hx⟩
      cases hy'
      exact step_of_run_ok (h.get_found ht ha hk hd hx)

section
variable {e : ElementType} (ht : w.type = .set e)
include ht

/-- The operations of maps are refused for a set. -/
theorem Live.map_operation_refused (key v : HostValue) :
    s.step builtin (.put id key v) = (s, .refused .unbound) ∧
      s.step builtin (.get id key) = (s, .refused .unbound) ∧
      s.step builtin (.delete id key) = (s, .refused .unbound) := by
  refine ⟨step_of_run_error ?_, step_of_run_error ?_, step_of_run_error ?_⟩
  all_goals
    rw [run, mapWrapper_of_set h.bound ht]
    rfl

end

section
variable {k t : ElementType} (ht : w.type = .map k t)
include ht

/-- The operations of sets are refused for a map. -/
theorem Live.set_operation_refused (v : HostValue) :
    s.step builtin (.add id v) = (s, .refused .unbound) ∧
      s.step builtin (.discard id v) = (s, .refused .unbound) := by
  refine ⟨step_of_run_error ?_, step_of_run_error ?_⟩
  all_goals
    rw [run, setWrapper_of_map h.bound ht]
    rfl

end

/-! ## One key -/

section
variable {stored? : Option Datum}

theorem Live.contains_congr (hka : KeyFate w.type.keyType a stored?)
    (hkb : KeyFate w.type.keyType b stored?) :
    s.step builtin (.contains id a) = s.step builtin (.contains id b) := by
  rw [step_of_run_ok (h.contains hka), step_of_run_ok (h.contains hkb)]

omit h in
theorem remove_congr (hka : KeyFate w.type.keyType a stored?)
    (hkb : KeyFate w.type.keyType b stored?) :
    s.remove builtin w a = s.remove builtin w b := by
  unfold Store.remove
  rw [hka.lookup, hkb.lookup]

theorem Live.interchangeable_set {e : ElementType} (ht : w.type = .set e)
    (hb : builtin.acceptsValue b e = .ok true) (he : e.toDatum a = e.toDatum b)
    (hka : KeyFate w.type.keyType a stored?) (hkb : KeyFate w.type.keyType b stored?) :
    Interchangeable s id a b where
  contains := h.contains_congr hka hkb
  discard := by
    rw [step, step, h.run_discard ht, h.run_discard ht, remove_congr hka hkb]
  delete := by
    rw [(h.map_operation_refused ht a a).2.2, (h.map_operation_refused ht b b).2.2]
  get := by
    intro v
    rw [(h.map_operation_refused ht a v).2.1, (h.map_operation_refused ht b v).2.1]
  add := by
    intro s' n hr
    obtain ⟨x, hx, h', rfl⟩ := h.added ht hr
    refine step_of_run_ok ?_
    rw [h'.run_add ht, checkInsertion_ok hb, ← he, hx]
    show Except.ok (s'.setContent w.storage ((content.add x).add x),
      Answer.count ((content.add x).add x).size) = _
    rw [content.add_add, h'.setContent_self]
  put := by
    intro v u s' n s'' m hr
    rw [(h.map_operation_refused ht a v).1] at hr
    cases hr

theorem Live.interchangeable_map {k t : ElementType} (ht : w.type = .map k t)
    (ha : builtin.acceptsValue a k = .ok true) (hb : builtin.acceptsValue b k = .ok true)
    (he : k.toDatum a = k.toDatum b) (hka : KeyFate w.type.keyType a stored?)
    (hkb : KeyFate w.type.keyType b stored?) : Interchangeable s id a b where
  contains := h.contains_congr hka hkb
  discard := by
    rw [(h.set_operation_refused ht a).2, (h.set_operation_refused ht b).2]
  delete := by
    rw [step, step, h.run_delete ht, h.run_delete ht, remove_congr hka hkb]
  get := by
    rw [ht] at hka hkb
    exact fun v => (h.get_value_iff ht ha hka).trans (h.get_value_iff ht hb hkb).symm
  add := by
    intro s' n hr
    rw [(h.set_operation_refused ht a).1] at hr
    cases hr
  put := by
    intro v u s' n s'' m hr hr'
    obtain ⟨entries, rfl, -⟩ := h.exists_entries ht
    obtain ⟨x, y, hx, h', rfl⟩ := h.assigned ht hr
    obtain ⟨x', y', hx', -, rfl⟩ := h'.assigned ht hr'
    cases (hx.symm.trans he).trans hx'
    exact Content.size_put_put entries x y y'

end

/-- Accepted keys with one storage form are one key. -/
theorem Live.interchangeable (hkey : w.type.keyType.isKey = true)
    (ha : builtin.acceptsValue a w.type.keyType = .ok true)
    (hb : builtin.acceptsValue b w.type.keyType = .ok true)
    (he : w.type.keyType.toDatum a = w.type.keyType.toDatum b) : Interchangeable s id a b := by
  obtain ⟨stored?, hka⟩ := exists_keyFate hkey a
  have hkb := hka.congr ha hb he
  cases ht : w.type with
  | set e =>
    rw [ht] at hb he
    exact h.interchangeable_set ht hb he hka hkb
  | map k t =>
    rw [ht] at ha hb he
    exact h.interchangeable_map ht ha hb he hka hkb

/-! ## Two keys -/

/-- Keys with two storage forms are two keys. -/
theorem Live.apart (hkey : w.type.keyType.isKey = true)
    (he : w.type.keyType.toDatum a ≠ w.type.keyType.toDatum b) : Apart s id a b := by
  obtain ⟨stored?, hkb⟩ := exists_keyFate hkey b
  -- What brings in another key than that of `b` does not make `b` a member.
  have hinsert : ∀ {s' : Store} {content' : Content} {x : Datum}, Live s' id w content' →
      content'.keys = Ordered.insert (fun d => d) x content.keys →
      w.type.keyType.toDatum a = .ok x →
      (s'.step builtin (.contains id b)).2 = (s.step builtin (.contains id b)).2 := by
    intro s' content' x h' hkeys hx
    rw [step_of_run_ok (h.contains hkb), step_of_run_ok (h'.contains hkb)]
    cases hkb with
    | mistyped => rfl
    | overflow => rfl
    | stored _ hd =>
      rw [Option.any_some, Option.any_some, Content.contains_of_insert hkeys]
      rintro rfl
      exact he (hx.trans hd.symm)
  cases ht : w.type with
  | set e =>
    obtain ⟨items, rfl⟩ := h.exists_items ht
    refine ⟨fun s' n hr => ?_, fun v s' n hr => ?_⟩
    · obtain ⟨x, hx, h', -⟩ := h.added ht hr
      exact hinsert h' rfl (by rw [ht]; exact hx)
    · rw [(h.map_operation_refused ht a v).1] at hr
      cases hr
  | map k t =>
    obtain ⟨entries, rfl, -⟩ := h.exists_entries ht
    refine ⟨fun s' n hr => ?_, fun v s' n hr => ?_⟩
    · rw [(h.set_operation_refused ht a).1] at hr
      cases hr
    · obtain ⟨x, y, hx, h', -⟩ := h.assigned ht hr
      exact hinsert h' (Content.keys_put entries x y) (by rw [ht]; exact hx)

end

/-! ## Every run -/

/-- After any operations two accepted keys of a live container that are equal to the
host are one key, unless they are zeros of opposite signs in a float type, or an
integer and a float that the 32-bit format tells apart, where the integer is greater
than `2 ^ 53`; these are two keys. -/
theorem equal_keys_interchangeable (ops : List Operation) (id : String) (w : Wrapper)
    (hw : (empty.after builtin ops).wrappers.lookup id = some w)
    (hl : (empty.after builtin ops).isLive w.storage = true) (a b : HostValue)
    (ha : builtin.acceptsValue a w.type.keyType = .ok true)
    (hb : builtin.acceptsValue b w.type.keyType = .ok true) (h : a.same b = true) :
    if HostValue.parted w.type.keyType a b then
      Apart (empty.after builtin ops) id a b ∧
        (HostValue.oppositeZeros a b = true ∧
            (w.type.keyType = .primitive .float32 ∨ w.type.keyType = .primitive .float64) ∨
          w.type.keyType = .primitive .float32 ∧
            ∃ n, (a = .int n ∨ b = .int n) ∧ 2 ^ 53 < n.natAbs)
    else Interchangeable (empty.after builtin ops) id a b := by
  obtain ⟨types, htyped⟩ := wellTyped_after builtin ops
  have hlive := htyped.live hw hl
  have hkey := htyped.keys _ (List.mem_of_getElem? (htyped.lookup hw))
  have hforms := ElementType.toDatum_eq_iff hkey h ha hb
  split
  · rename_i hp
    refine ⟨hlive.apart hkey fun he => ?_, HostValue.parted_cases h hp⟩
    exact Bool.false_ne_true ((hforms.mp he).symm.trans hp)
  · rename_i hp
    exact hlive.interchangeable hkey ha hb (hforms.mpr (Bool.eq_false_iff.mpr hp))

/-- An integer and the float that it equals, as keys of a map in the 32-bit format. -/
theorem equal_keys_interchangeable_map :
    let type : WrappedType := .map (.primitive .float32) (.primitive .str)
    let ops : List Operation :=
      [.create "m" type .strict (.host (.dict [(.int 16777217, .str "a")])),
       .create "n" type .strict (.alias "m" none)]
    let key : HostValue := .float (Word.ofInt 16777217)
    (HostValue.int 16777217).same key = true ∧
      Interchangeable (empty.after builtin ops) "n" (.int 16777217) key := by
  intro type ops key
  have hsame : (HostValue.int 16777217).same key = true := by decide +kernel
  refine ⟨hsame, ?_⟩
  have h := equal_keys_interchangeable ops "n" ⟨type, .strict, 0, false⟩ rfl rfl (.int 16777217) key
    rfl rfl hsame
  have hparted : HostValue.parted (.primitive .float32) (.int 16777217) key = false := by
    decide +kernel
  rwa [show type.keyType = .primitive .float32 from rfl, hparted] at h

/-- Equal values that are two members: a set with one zero is without the other, and
an integer that is rounded once is not the float that is rounded twice. -/
theorem equal_values_two_members :
    let zero : HostValue := .float (Word.ofParts false 0)
    let minus : HostValue := .float (Word.ofParts true 0)
    let s := empty.after builtin
      [.create "s" (.set (.primitive .float64)) .permissive (.host (.list [zero]))]
    let large : HostValue := .int 18014399583223809
    let rounded : HostValue := .float (Word.ofBits 0x4350000010000000)
    let s' := empty.after builtin
      [.create "s" (.set (.primitive .float32)) .permissive (.host (.list [large]))]
    (zero.same minus = true ∧
      builtin.acceptsValue zero (.primitive .float64) = .ok true ∧
      builtin.acceptsValue minus (.primitive .float64) = .ok true ∧
      s.isLive 0 = true ∧
      (s.step builtin (.contains "s" zero)).2 = .flag true ∧
      (s.step builtin (.contains "s" minus)).2 = .flag false ∧
      (s.step builtin (.add "s" zero)).2 = .count 1 ∧
      ((s.step builtin (.add "s" zero)).1.step builtin (.add "s" minus)).2 = .count 2) ∧
    large.same rounded = true ∧
      builtin.acceptsValue large (.primitive .float32) = .ok true ∧
      builtin.acceptsValue rounded (.primitive .float32) = .ok true ∧
      s'.isLive 0 = true ∧
      (s'.step builtin (.contains "s" large)).2 = .flag true ∧
      (s'.step builtin (.contains "s" rounded)).2 = .flag false := by
  intro zero minus s large rounded s'
  refine ⟨⟨?_, rfl, rfl, rfl, rfl, rfl, rfl, rfl⟩, ?_, rfl, rfl, rfl, rfl, rfl⟩
  all_goals decide +kernel

end Store

end WrapGen
