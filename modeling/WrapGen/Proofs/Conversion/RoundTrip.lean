import WrapGen.Proofs.Binary.Widening
import WrapGen.Proofs.Conversion.Loaded
import WrapGen.Proofs.Value.Ordered

/-!
# Storage values that are converted there and back

Storage holds sets and maps in order (`InOrder`). Such a value of a type gives a
host value, and that host value gives the storage value again, unless a 32-bit
float in it is a NaN: narrowing forgets the sign and the payload of a NaN.

The proof goes by recursion on the storage value. A list is converted back item
by item, and a list in order is its own ordered list, so a set or a map of items
that come back comes back itself.

* `toDatum_toHost`: the main statement.
-/
namespace WrapGen

open Binary

namespace Datum

/-! ## What holds of every value inside -/

mutual

/-- Whether `P` holds of a storage value and of all values inside it. -/
def Everywhere (P : Datum → Prop) : Datum → Prop
  | .vector items => P (.vector items) ∧ EverywhereIn P items
  | .set items => P (.set items) ∧ EverywhereIn P items
  | .map entries => P (.map entries) ∧ EverywhereInEntries P entries
  | d => P d
termination_by structural d => d

/-- `Everywhere` of all items. -/
def EverywhereIn (P : Datum → Prop) : List Datum → Prop
  | [] => True
  | d :: ds => Everywhere P d ∧ EverywhereIn P ds
termination_by structural ds => ds

/-- `Everywhere` of all keys and values. -/
def EverywhereInEntries (P : Datum → Prop) : List (Datum × Datum) → Prop
  | [] => True
  | (k, v) :: es => Everywhere P k ∧ Everywhere P v ∧ EverywhereInEntries P es
termination_by structural es => es

end

/-- The items of a set and the keys of a map rise. -/
def Rising : Datum → Prop
  | .set items => Ordered.Sorted id items
  | .map entries => Ordered.Sorted Prod.fst entries
  | _ => True

/-- Not a NaN in the 32-bit format. -/
def NumberIfSingle : Datum → Prop
  | .float32 x => x.isNaN = false
  | _ => True

/-- Every set and map inside is held in order, each key once. -/
def InOrder (d : Datum) : Prop := d.Everywhere Rising

/-- No 32-bit float inside is a NaN. -/
def NoSingleNaN (d : Datum) : Prop := d.Everywhere NumberIfSingle

/-! ## There and back -/

/-- A storage value that gives a host value which gives it again. -/
def Restored (t : ElementType) (d : Datum) : Prop :=
  ∃ v, d.toHost t = .ok v ∧ t.toDatum v = .ok d

theorem restored_integer {p : Primitive} {k : IntegerKind} (n : k.Ranged)
    (h : p.integerKind? = some k) : Restored (.primitive p) (.integer k n) := by
  refine ⟨.int n.val, rfl, ?_⟩
  show p.toDatum (.int n.val) = _
  cases p <;> cases h <;> simp only [Primitive.toDatum, Primitive.integerKind?,
    IntegerKind.ofInt?_val]

mutual

/-- Storage values without NaNs in the 32-bit format come back from the host. -/
theorem restored_of_inOrder : ∀ {d : Datum} {t : ElementType}, d.hasType t = true →
    d.InOrder → d.NoSingleNaN → Restored t d
  | .str s, .primitive .str, _, _, _ => ⟨.str s, rfl, rfl⟩
  | .integer k n, .primitive p, h, _, _ => restored_integer n (eq_of_beq h)
  | .float32 x, .primitive .float32, _, _, hn =>
    ⟨.float (Single.widen x), rfl, congrArg (Except.ok ∘ Datum.float32) (Single.narrow_widen hn)⟩
  | .float64 x, .primitive .float64, _, _, _ => ⟨.float x, rfl, rfl⟩
  | .complex re im, .primitive .complex128, _, _, _ => ⟨.complex re im, rfl, rfl⟩
  | .vector items, .vector e, h, ho, hn => by
    obtain ⟨vs, hhost, hback⟩ := restored_items (e := e) h ho.2 hn.2
    exact ⟨.list vs, by rw [toHost, hhost]; rfl, by rw [ElementType.toDatum, hback]; rfl⟩
  | .set items, .set e, h, ho, hn => by
    obtain ⟨vs, hhost, hback⟩ := restored_items (e := e) h ho.2 hn.2
    refine ⟨.set vs, by rw [toHost, hhost]; rfl, ?_⟩
    rw [ElementType.toDatum, hback]
    show Except.ok (Datum.set (Ordered.ofList id items)) = _
    rw [Ordered.ofList_eq_self ho.1]
  | .map entries, .map k t, h, ho, hn => by
    obtain ⟨es, hhost, hback⟩ := restored_entries (k := k) (t := t) h ho.2 hn.2
    refine ⟨.dict es, by rw [toHost, hhost]; rfl, ?_⟩
    rw [ElementType.toDatum, hback]
    show Except.ok (Datum.map (Ordered.ofList Prod.fst entries)) = _
    rw [Ordered.ofList_eq_self ho.1]

theorem restored_items : ∀ {items : List Datum} {e : ElementType}, hasTypeAll items e = true →
    EverywhereIn Rising items → EverywhereIn NumberIfSingle items →
    ∃ vs, toHostAll items e = .ok vs ∧ vs.mapM e.toDatum = .ok items
  | [], _, _, _, _ => ⟨[], rfl, rfl⟩
  | d :: ds, e, h, ho, hn => by
    rw [hasTypeAll, Bool.and_eq_true] at h
    obtain ⟨v, hv, hd⟩ := restored_of_inOrder h.1 ho.1 hn.1
    obtain ⟨vs, hvs, hds⟩ := restored_items h.2 ho.2 hn.2
    refine ⟨v :: vs, by rw [toHostAll, hv, hvs]; rfl, ?_⟩
    rw [List.mapM_cons, hd, hds]
    rfl

theorem restored_entries : ∀ {entries : List (Datum × Datum)} {k t : ElementType},
    hasTypeEntries entries k t = true →
    EverywhereInEntries Rising entries → EverywhereInEntries NumberIfSingle entries →
    ∃ es, toHostEntries entries k t = .ok es ∧
      (es.mapM fun entry => do
        let key ← k.toDatum entry.1
        let value ← t.toDatum entry.2
        return (key, value)) = .ok entries
  | [], _, _, _, _, _ => ⟨[], rfl, rfl⟩
  | (a, b) :: ds, k, t, h, ho, hn => by
    rw [hasTypeEntries, Bool.and_eq_true, Bool.and_eq_true] at h
    obtain ⟨x, hx, ha⟩ := restored_of_inOrder h.1.1 ho.1 hn.1
    obtain ⟨y, hy, hb⟩ := restored_of_inOrder h.1.2 ho.2.1 hn.2.1
    obtain ⟨es, hes, hds⟩ := restored_entries h.2 ho.2.2 hn.2.2
    refine ⟨(x, y) :: es, by rw [toHostEntries, hx, hy, hes]; rfl, ?_⟩
    rw [List.mapM_cons, ha, hb, hds]
    rfl

end

/-- Storage to host to storage is the identity on the values of a type, NaNs in
the 32-bit format apart. -/
theorem toDatum_toHost {d : Datum} {t : ElementType} (htype : d.hasType t = true)
    (horder : d.InOrder) (hnumbers : d.NoSingleNaN) :
    ∃ v, d.toHost t = .ok v ∧ t.toDatum v = .ok d :=
  restored_of_inOrder htype horder hnumbers

/-- A map with a set of both zeros and an infinity in the 32-bit format. -/
theorem toDatum_toHost_zeros :
    let d : Datum := .map [(.str "k", .set [.float32 (Word.ofParts true 0),
      .float32 (Word.ofParts false 0), .float32 (Word.ofParts false Format.binary32.infinity)])]
    let t : ElementType := .map (.primitive .str) (.set (.primitive .float32))
    ∃ v, d.toHost t = .ok v ∧ t.toDatum v = .ok d :=
  toDatum_toHost (by decide)
    ⟨by unfold Rising Ordered.Sorted; decide, trivial,
      ⟨by unfold Rising Ordered.Sorted; decide, trivial, trivial, trivial, trivial⟩, trivial⟩
    ⟨trivial, trivial, ⟨trivial, rfl, rfl, rfl, trivial⟩, trivial⟩

end Datum

end WrapGen
