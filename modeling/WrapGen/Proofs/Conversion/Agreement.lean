import WrapGen.Proofs.Conversion.Loaded

/-!
# Conversion code computes the conversions

`Recipe.Computes` is what running a conversion comes to: its declarations and
statements end, its result has a value, and no name has changed but those that
the conversion introduces.

Over the built-in catalog, for every type, every source name and every
environment (`conversion_code_computes`):

* towards storage, the code computes what `ElementType.toDatum` gives;
* towards the host, the code computes what `Datum.toHost` gives with its sets
  and dicts filled one by one. It is the value of `Datum.toHost` itself exactly
  if no set and no dict in it has two equal members or keys. Storage tells the
  two zeros apart, and a host set does not (`not_computes_signed_zeros`).
-/
namespace WrapGen

open Binary Code Execution

namespace Code.Recipe

/-- All of the code ends, its result is a value, and only introduced names changed. -/
def Computes (r : Recipe) (env : Env) (v : Val) : Prop :=
  ∃ env', Runs (r.decls ++ r.setup) env env' ∧ eval env' r.result = .ok v ∧
    AgreeOff r.introduced env env'

theorem Computes.unique {r : Recipe} {env : Env} {v w : Val} (h : r.Computes env v)
    (h' : r.Computes env w) : v = w := by
  obtain ⟨env₁, hr₁, hv, -⟩ := h
  obtain ⟨env₂, hr₂, hw, -⟩ := h'
  rw [hr₁.unique hr₂, hw] at hv
  cases hv
  rfl

theorem Yields.computes {r : Recipe} {source : Expr} {env : Env} {v : Val}
    (h : r.Yields env v) (hl : r.LocalTo source) : r.Computes env v := by
  obtain ⟨env', hrun, hres⟩ := h
  exact ⟨env', (runs_decls r.decls hl.decls).append hrun, hres,
    hrun.agreeOff.mono hl.changes⟩

end Code.Recipe

namespace Catalog

variable {t : ElementType} {n : String} {env : Env} {r : Recipe}

theorem toStorage_computes (h : builtin.toStorage (.name n) t = .ok r) {v : HostValue} {d : Datum}
    (hd : t.toDatum v = .ok d) : r.Computes (env.bind n (.host v)) (.datum d) :=
  (toStorage_yields t (Expr.isStable_name n) h (eval_name (bind_self _ _ _)) hd).computes
    (toStorage_localTo h)

theorem toHost_computes (h : builtin.toHost (.name n) t = .ok r) {d : Datum} {v : HostValue}
    (ht : d.hasType t = true) (hv : d.toHost t = .ok v) :
    r.Computes (env.bind n (.datum d)) (.host v.merged) :=
  (toHost_yields t (Expr.isStable_name n) h (eval_name (bind_self _ _ _))
    ⟨ht, v, hv, rfl⟩).computes (toHost_localTo h)

/-- The code computes the converted value itself exactly if it has no twins. -/
theorem toHost_computes_iff (h : builtin.toHost (.name n) t = .ok r) {d : Datum} {v : HostValue}
    (ht : d.hasType t = true) (hv : d.toHost t = .ok v) :
    r.Computes (env.bind n (.datum d)) (.host v) ↔ v.distinct = true := by
  have hm : r.Computes (env.bind n (.datum d)) (.host v.merged) := toHost_computes h ht hv
  rw [← HostValue.merged_eq_self_iff]
  constructor
  · intro hc
    have hu := hm.unique hc
    injection hu
  · intro he
    rwa [he] at hm

/-- In both directions the built-in catalog has code for every type. Towards
storage it computes the conversion; towards the host it computes the conversion
merged, which is the conversion itself exactly if that has no twins. -/
theorem conversion_code_computes (t : ElementType) (n : String) (env : Env) :
    (∃ r, builtin.toStorage (.name n) t = .ok r ∧ ∀ v d, t.toDatum v = .ok d →
      r.Computes (env.bind n (.host v)) (.datum d)) ∧
    (∃ r, builtin.toHost (.name n) t = .ok r ∧ ∀ d, d.hasType t = true →
      ∃ v, d.toHost t = .ok v ∧ r.Computes (env.bind n (.datum d)) (.host v.merged) ∧
        (r.Computes (env.bind n (.datum d)) (.host v) ↔ v.distinct = true)) := by
  constructor
  · obtain ⟨r, h, -⟩ := toStorage_builtin t (.name n)
    exact ⟨r, h, fun v d hd => toStorage_computes h hd⟩
  · obtain ⟨r, h, -⟩ := toHost_builtin t (.name n)
    refine ⟨r, h, fun d ht => ?_⟩
    obtain ⟨v, hv⟩ := Datum.toHost_of_hasType ht
    exact ⟨v, hv, toHost_computes h ht hv, toHost_computes_iff h ht hv⟩

/-- Both directions for a dict of sets. -/
theorem conversion_code_computes_nested :
    let t : ElementType := .map (.primitive .str) (.set (.primitive .float64))
    let stored : Datum := .map [(.str "k", .set [.float64 Word.zero])]
    (∃ r, builtin.toStorage (.name "m") t = .ok r ∧
      r.Computes (Env.bind (fun _ => none) "m"
        (.host (.dict [(.str "k", .set [.int 0, .float Word.zero])]))) (.datum stored)) ∧
    (∃ r, builtin.toHost (.name "m") t = .ok r ∧
      r.Computes (Env.bind (fun _ => none) "m" (.datum stored))
        (.host (.dict [(.str "k", .set [.float Word.zero])]))) := by
  intro t stored
  obtain ⟨⟨r, hr, hs⟩, ⟨s, hs', hh⟩⟩ := conversion_code_computes t "m" (fun _ => none)
  refine ⟨⟨r, hr, hs _ _ rfl⟩, ⟨s, hs', ?_⟩⟩
  obtain ⟨v, hv, -, hiff⟩ := hh stored rfl
  cases hv
  exact hiff.mpr rfl

/-- The set of both zeros stays one of two members when it is converted, but the
code for it makes a set of one: not all code computes the conversion itself. -/
theorem not_computes_signed_zeros : ¬ ∀ (t : ElementType) (n : String) (env : Env) (r : Recipe)
    (d : Datum) (v : HostValue), builtin.toHost (.name n) t = .ok r → d.hasType t = true →
    d.toHost t = .ok v → r.Computes (env.bind n (.datum d)) (.host v) := by
  intro h
  let t : ElementType := .set (.primitive .float64)
  let d : Datum := .set [.float64 (Word.ofParts true 0), .float64 Word.zero]
  let v : HostValue := .set [.float (Word.ofParts true 0), .float Word.zero]
  obtain ⟨r, hr, -⟩ := toHost_builtin t (.name "s")
  have hc := h t "s" (fun _ => none) r d v hr rfl rfl
  have hd : v.distinct = true := (toHost_computes_iff hr rfl rfl).mp hc
  have hn : v.distinct = false := by decide
  rw [hn] at hd
  cases hd

end Catalog

end WrapGen
