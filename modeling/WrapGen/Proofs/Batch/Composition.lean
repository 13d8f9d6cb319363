import WrapGen.Batch.Basic
import WrapGen.Proofs.Results

/-!
# Batches compose

Requests in a batch do not see each other: the code of a batch is the code of
each of its requests (`Request.code`), in their order, and a batch of two lists
of requests is the two batches behind one header.

A failure is where requests do meet. All of them are resolved before any code is
made, so a request that cannot be resolved is the error even if code cannot be
made for one before it.

* `bundles_eq_ok_iff`, `bundles_eq_error_iff`: both outcomes in terms of single
  requests.
* `generate_composes`: the texts and the errors of batches.
-/
namespace WrapGen

/-- The code of a request as it is written, on its own. -/
def Request.code (g : Generator) (q : RequestText) : Except RequestError Bundle := do
  (← resolve g.catalog q).bundle g

namespace Batch

variable {b : Batch} {requests : List RequestText}

/-! ## Requests one by one -/

theorem bundles_of_resolved
    (h : ∀ q ∈ requests, ∃ r, Request.resolve b.generator.catalog q = .ok r) :
    b.bundles requests = requests.mapM (Request.code b.generator) :=
  mapM_bind h

theorem exists_resolve_of_code {g : Generator} {q : RequestText} {x : Bundle}
    (h : Request.code g q = .ok x) : ∃ r, Request.resolve g.catalog q = .ok r := by
  obtain ⟨r, hr, -⟩ := bind_eq_ok h
  exact ⟨r, hr⟩

/-- A batch has code exactly if every request has. -/
theorem bundles_eq_ok_iff {bundles : List Bundle} :
    b.bundles requests = .ok bundles ↔
      requests.mapM (Request.code b.generator) = .ok bundles := by
  constructor
  · intro h
    obtain ⟨rs, hrs, -⟩ := bind_eq_ok h
    rwa [← bundles_of_resolved (exists_eq_ok_of_mapM hrs)]
  · intro h
    have hall := fun q hq =>
      (exists_eq_ok_of_mapM h q hq).elim fun x hx => exists_resolve_of_code hx
    rwa [bundles_of_resolved hall]

/-- A batch fails with the first request that cannot be resolved, and if all can
be, with the first that has no code. -/
theorem bundles_eq_error_iff {e : RequestError} :
    b.bundles requests = .error e ↔
      FirstError (Request.resolve b.generator.catalog) requests e ∨
        (∀ q ∈ requests, ∃ r, Request.resolve b.generator.catalog q = .ok r) ∧
          FirstError (Request.code b.generator) requests e := by
  rw [← mapM_eq_error_iff, ← mapM_eq_error_iff]
  cases h : requests.mapM (Request.resolve b.generator.catalog) with
  | error e' =>
    have hb : b.bundles requests = .error e' := by
      rw [bundles, resolve, h]
      rfl
    have hnot : ¬ ∀ q ∈ requests, ∃ r, Request.resolve b.generator.catalog q = .ok r := by
      intro hall
      obtain ⟨rs, hrs⟩ := exists_mapM_eq_ok hall
      cases h.symm.trans hrs
    rw [hb]
    simp [hnot]
  | ok rs =>
    have hall := exists_eq_ok_of_mapM h
    rw [bundles_of_resolved hall]
    simp only [reduceCtorEq, false_or]
    exact ⟨fun h => ⟨hall, h⟩, And.right⟩

/-! ## The texts of a batch -/

theorem generate_eq_ok_iff {out : PerUnit String} :
    b.generate requests = .ok out ↔
      ∃ bundles, b.bundles requests = .ok bundles ∧ out = .ofFn (b.assemble bundles) := by
  constructor
  · intro h
    obtain ⟨bundles, hb, h⟩ := bind_eq_ok h
    cases h
    exact ⟨bundles, hb, rfl⟩
  · rintro ⟨bundles, hb, rfl⟩
    rw [generate, hb]
    rfl

theorem generate_eq_error_iff {e : RequestError} :
    b.generate requests = .error e ↔ b.bundles requests = .error e := by
  constructor
  · intro h
    rcases bind_eq_error h with h | ⟨bundles, -, h⟩
    · exact h
    · cases h
  · intro h
    rw [generate, h]
    rfl

theorem body_append (u : CodeUnit) (xs ys : List Bundle) :
    body u (xs ++ ys) = body u xs ++ body u ys := by
  unfold body
  rw [List.map_append, String.join_append]

theorem get_assemble (bundles : List Bundle) (u : CodeUnit) :
    (PerUnit.ofFn (b.assemble bundles)).get u =
      (b.headers.get u).getD ((Header.defaults b.module).get u) ++ body u bundles := by
  rw [PerUnit.get_ofFn]
  rfl

/-- What requests put behind the header of a unit, if they all have code. -/
def bodyOf (g : Generator) (requests : List RequestText) (u : CodeUnit) : String :=
  match requests.mapM (Request.code g) with
  | .ok bundles => body u bundles
  | .error _ => ""

theorem get_of_generate {out : PerUnit String} (h : b.generate requests = .ok out)
    (u : CodeUnit) : out.get u =
      (b.headers.get u).getD ((Header.defaults b.module).get u) ++
        bodyOf b.generator requests u := by
  obtain ⟨bundles, hb, rfl⟩ := generate_eq_ok_iff.mp h
  rw [get_assemble, bodyOf, bundles_eq_ok_iff.mp hb]

/-- Two lists of requests make a batch exactly if each of them does. -/
theorem exists_bundles_append_iff {r₁ r₂ : List RequestText} :
    (∃ bundles, b.bundles (r₁ ++ r₂) = .ok bundles) ↔
      (∃ bundles, b.bundles r₁ = .ok bundles) ∧ ∃ bundles, b.bundles r₂ = .ok bundles := by
  simp only [bundles_eq_ok_iff, mapM_append_eq_ok_iff]
  constructor
  · rintro ⟨_, xs, ys, hx, hy, rfl⟩
    exact ⟨⟨xs, hx⟩, ys, hy⟩
  · rintro ⟨⟨xs, hx⟩, ys, hy⟩
    exact ⟨_, xs, ys, hx, hy, rfl⟩

theorem exists_generate_iff :
    (∃ out, b.generate requests = .ok out) ↔ ∃ bundles, b.bundles requests = .ok bundles := by
  simp only [generate_eq_ok_iff]
  constructor
  · rintro ⟨_, bundles, hb, rfl⟩
    exact ⟨bundles, hb⟩
  · rintro ⟨bundles, hb⟩
    exact ⟨_, bundles, hb, rfl⟩

theorem bodyOf_append {r₁ r₂ : List RequestText}
    (h : ∃ bundles, b.bundles (r₁ ++ r₂) = .ok bundles) (u : CodeUnit) :
    bodyOf b.generator (r₁ ++ r₂) u = bodyOf b.generator r₁ u ++ bodyOf b.generator r₂ u := by
  obtain ⟨bundles, hb⟩ := h
  have hcode := bundles_eq_ok_iff.mp hb
  obtain ⟨xs, ys, hx, hy, rfl⟩ := mapM_append_eq_ok_iff.mp hcode
  simp only [bodyOf, hcode, hx, hy, body_append]

/-- Batches compose. Whatever headers and module a batch has, its texts are its
headers with a body behind each that the requests alone decide; the body of two
lists of requests is their bodies, and there is one exactly if each list has one.
The error is that of the first request that cannot be resolved, and if there is
none that of the first that has no code. -/
theorem generate_composes (g : Generator) :
    ∃ body : List RequestText → CodeUnit → String, ∀ (module : String) (headers : Headers),
      let b : Batch := ⟨g, module, headers⟩
      let header := fun u => (headers.get u).getD ((Header.defaults module).get u)
      (∀ r out, b.generate r = .ok out → ∀ u, out.get u = header u ++ body r u) ∧
      (∀ r₁ r₂, (∃ out, b.generate (r₁ ++ r₂) = .ok out) ↔
        (∃ out, b.generate r₁ = .ok out) ∧ ∃ out, b.generate r₂ = .ok out) ∧
      (∀ r₁ r₂ out, b.generate (r₁ ++ r₂) = .ok out →
        ∀ u, out.get u = header u ++ body r₁ u ++ body r₂ u) ∧
      ∀ r e, b.generate r = .error e ↔
        FirstError (Request.resolve g.catalog) r e ∨
          (∀ q ∈ r, ∃ x, Request.resolve g.catalog q = .ok x) ∧
            FirstError (Request.code g) r e := by
  refine ⟨bodyOf g, fun module headers => ?_⟩
  intro b header
  refine ⟨fun r out h u => get_of_generate h u, fun r₁ r₂ => ?_, fun r₁ r₂ out h u => ?_,
    fun r e => generate_eq_error_iff.trans bundles_eq_error_iff⟩
  · simp only [exists_generate_iff]
    exact exists_bundles_append_iff
  · have hbundles : ∃ bundles, b.bundles (r₁ ++ r₂) = .ok bundles :=
      exists_generate_iff.mp ⟨out, h⟩
    rw [get_of_generate h u, bodyOf_append hbundles, String.append_assoc]

end Batch

end WrapGen
