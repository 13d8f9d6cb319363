import WrapGen.Batch.Basic
import WrapGen.Catalog.Builtin
import WrapGen.Proofs.Results

/-!
# Reworded batches

A type may be written in many ways: with one of several names of a primitive or a
container, and with blanks around the names. `Alike` relates descriptors of one
tree shape whose names mean the same at every place. Alike descriptors resolve to
the same type or both fail, and nothing behind that step sees the text, so two
batches of alike requests make the same three units (`generate_eq_ok_congr`).

Only results are compared. The wording of an error quotes the text it is about.
-/
namespace WrapGen

/-! ## Descriptors -/

namespace Catalog

variable {c : Catalog}

/-- Two descriptors have one tree shape, with the same primitives at the leaves and
the same containers at the heads. -/
inductive Alike (c : Catalog) : Descriptor → Descriptor → Prop
  | token {s t : String} {p : Primitive} (hs : c.primitive? s = some p)
      (ht : c.primitive? t = some p) : Alike c (.token s) (.token t)
  | applied {h k : String} {q : Container} {xs ys : List Descriptor}
      (hh : c.container? h = some q) (hk : c.container? k = some q)
      (hargs : List.Forall₂ (Alike c) xs ys) : Alike c (.applied h xs) (.applied k ys)

/-- Alike descriptors name the same type at any depth, or none. -/
theorem Alike.resolveAt {d e : Descriptor} (hde : c.Alike d e) (depth : Nat) :
    SameResult (c.resolveAt depth d) (c.resolveAt depth e) := by
  cases hde with
  | token hs ht =>
    rw [Catalog.resolveAt, Catalog.resolveAt, resolveToken_of_primitive hs,
      resolveToken_of_primitive ht]
    exact .rfl
  | @applied h k q xs ys hh hk hargs =>
    rw [Catalog.resolveAt, Catalog.resolveAt, resolveHead_of_container hh,
      resolveHead_of_container hk, hargs.length_eq]
    by_cases hcount : ys.length = q.arity
    · simp only [if_pos hcount]
      by_cases hdeep : depth = Descriptor.maxNesting
      · simp only [if_pos hdeep]
        exact .of_errors
      · simp only [if_neg hdeep]
        cases q with
        | vector =>
          obtain ⟨y, rfl⟩ := List.length_eq_one_iff.mp hcount
          obtain _ | ⟨hx, _ | _⟩ := hargs
          exact (hx.resolveAt (depth + 1)).bind fun _ => .rfl
        | set =>
          obtain ⟨y, rfl⟩ := List.length_eq_one_iff.mp hcount
          obtain _ | ⟨hx, _ | _⟩ := hargs
          exact (hx.resolveAt (depth + 1)).bind fun _ => .rfl
        | map =>
          obtain ⟨k, v, rfl⟩ := List.length_eq_two.mp hcount
          obtain _ | ⟨hk, _ | ⟨hv, _ | _⟩⟩ := hargs
          exact (hk.resolveAt (depth + 1)).bind fun _ =>
            (hv.resolveAt (depth + 1)).bind fun _ => .rfl
    · simp only [if_neg hcount]
      exact .of_errors
termination_by sizeOf d

/-! ## Texts and requests -/

/-- Two texts write alike descriptors. -/
def AlikeText (c : Catalog) (s t : String) : Prop :=
  ∃ d e, Descriptor.parse s = .ok d ∧ Descriptor.parse t = .ok e ∧ c.Alike d e

/-- Two requests have one tag, and alike types place by place. -/
inductive AlikeRequest (c : Catalog) : RequestText → RequestText → Prop
  | empty : AlikeRequest c [] []
  | tagged {tag : String} {ts us : List String} (htypes : List.Forall₂ c.AlikeText ts us) :
    AlikeRequest c (tag :: ts) (tag :: us)

theorem AlikeText.resolveText {s t : String} (h : c.AlikeText s t) :
    SameResult (c.resolveText s) (c.resolveText t) := by
  obtain ⟨d, e, hd, he, hde⟩ := h
  rw [Catalog.resolveText, Catalog.resolveText, hd, he]
  exact hde.resolveAt 0

theorem AlikeRequest.resolve {q r : RequestText} (h : c.AlikeRequest q r) :
    SameResult (Request.resolve c q) (Request.resolve c r) := by
  cases h with
  | empty => exact .rfl
  | @tagged tag ts us htypes =>
    have htypeResults : SameResult (ts.mapM (Request.resolveType c))
        (us.mapM (Request.resolveType c)) :=
      .mapM (htypes.imp fun _ _ h => h.resolveText.mapError RequestError.type)
    rw [Request.resolve, Request.resolve, htypes.length_eq]
    refine .bind .rfl fun shape => ?_
    by_cases hcount : us.length = shape.arity
    · rw [if_neg (not_not.mpr hcount), if_neg (not_not.mpr hcount)]
      exact htypeResults.bind fun _ => .rfl
    · rw [if_pos hcount, if_pos hcount]
      exact .of_errors

end Catalog

/-! ## Batches -/

namespace Batch

/-- Batches of alike requests make the same units, or neither makes any. -/
theorem generate_eq_ok_congr (b : Batch) {requests reworded : List RequestText}
    (h : List.Forall₂ b.generator.catalog.AlikeRequest requests reworded)
    (out : PerUnit String) : b.generate requests = .ok out ↔ b.generate reworded = .ok out := by
  have hresolved : SameResult (b.resolve requests) (b.resolve reworded) :=
    .mapM (h.imp fun _ _ h => h.resolve)
  have hbundles : SameResult (b.bundles requests) (b.bundles reworded) :=
    hresolved.bind fun _ => .rfl
  exact hbundles.bind (fun _ => .rfl) out

/-- Other names and blanks, in both requests of a batch. -/
theorem generate_eq_ok_congr_aliases :
    let b : Batch := ⟨⟨.builtin, .builtin, .strict⟩, defaultModule, .const none⟩
    SameResult
      (b.generate [["map", "std::string", "vec< double >"], ["py2c_set", " unsigned  int"]])
      (b.generate [["map", "str", "std::vector<f64>"], ["py2c_set", "u32"]]) := by
  intro b
  have hstr : Catalog.builtin.AlikeText "std::string" "str" :=
    ⟨.token "std::string", .token "str", rfl, rfl, .token rfl rfl⟩
  have hvector : Catalog.builtin.AlikeText "vec< double >" "std::vector<f64>" :=
    ⟨.applied "vec" [.token "double"], .applied "std::vector" [.token "f64"], rfl, rfl,
      .applied rfl rfl (.cons (.token rfl rfl) .nil)⟩
  have huint : Catalog.builtin.AlikeText " unsigned  int" "u32" :=
    ⟨.token "unsigned int", .token "u32", rfl, rfl, .token rfl rfl⟩
  exact generate_eq_ok_congr b
    (.cons (.tagged (.cons hstr (.cons hvector .nil))) (.cons (.tagged (.cons huint .nil)) .nil))

end Batch

end WrapGen
