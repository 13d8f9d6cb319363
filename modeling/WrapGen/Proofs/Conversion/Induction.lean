import WrapGen.Conversion
import WrapGen.Proofs.Results

/-!
# Induction over conversions

The conversion of a type is a bound recipe, or a loop around the conversions of what
the type is made of. What holds of the first and is handed on by the loops holds of
every conversion: `Catalog.toStorage_induction` and `Catalog.toHost_induction` take a
property of the value and its recipe, whatever the catalog.
-/
namespace WrapGen.Catalog

open Code

variable {c : Catalog} {P : Expr → Recipe → Prop}

theorem toStorage_induction
    (primitive : ∀ {source p r}, c.toStorage source (.primitive p) = .ok r → P source r)
    (items : ∀ {source t storage item}, c.storageType t = .ok storage → t.primitive? = none →
      P (.name (source.stem ++ "_item")) item → ∀ insertion ∈ ["push_back", "insert"],
      P source (.storeItems source.stem storage insertion source item))
    (entries : ∀ {source t storage key value}, c.storageType t = .ok storage →
      t.primitive? = none → P (.name (source.stem ++ "_key")) key →
      P (.name (source.stem ++ "_val")) value →
      P source (.storeEntries source.stem storage source key value)) :
    ∀ {t : ElementType} {source : Expr} {r : Recipe}, c.toStorage source t = .ok r → P source r
  | .primitive p, source, r, h => primitive h
  | .vector e, source, r, h => by
    obtain ⟨storage, hs, h⟩ := bind_eq_ok h
    obtain ⟨item, hi, h⟩ := bind_eq_ok h
    cases h
    exact items hs rfl (toStorage_induction primitive items entries hi) _ (by simp)
  | .set e, source, r, h => by
    obtain ⟨storage, hs, h⟩ := bind_eq_ok h
    obtain ⟨item, hi, h⟩ := bind_eq_ok h
    cases h
    exact items hs rfl (toStorage_induction primitive items entries hi) _ (by simp)
  | .map k v, source, r, h => by
    obtain ⟨storage, hs, h⟩ := bind_eq_ok h
    obtain ⟨key, hk, h⟩ := bind_eq_ok h
    obtain ⟨value, hv, h⟩ := bind_eq_ok h
    cases h
    exact entries hs rfl (toStorage_induction primitive items entries hk)
      (toStorage_induction primitive items entries hv)

/-- The position of a walk refers to an item. -/
def itemAt (source : Expr) : Expr := .deref (.name (source.stem ++ "_iter"))

/-- The empty host containers, each with the method that adds an item. -/
def fillers : List (String × Expr) := [("append", .list []), ("add", .callName "set" [])]

theorem toHost_induction
    (primitive : ∀ {source p r}, c.toHost source (.primitive p) = .ok r → P source r)
    (items : ∀ {source t storage item}, c.storageType t = .ok storage → P (itemAt source) item →
      ∀ filler ∈ fillers,
      P source (.loadItems source.stem storage filler.1 source filler.2 item))
    (entries : ∀ {source t storage key value}, c.storageType t = .ok storage →
      P (.attr (itemAt source) "first") key → P (.attr (itemAt source) "second") value →
      P source (.loadEntries source.stem storage source key value)) :
    ∀ {t : ElementType} {source : Expr} {r : Recipe}, c.toHost source t = .ok r → P source r
  | .primitive p, source, r, h => primitive h
  | .vector e, source, r, h => by
    obtain ⟨storage, hs, h⟩ := bind_eq_ok h
    obtain ⟨item, hi, h⟩ := bind_eq_ok h
    cases h
    exact items hs (toHost_induction primitive items entries hi) ("append", .list [])
      List.mem_cons_self
  | .set e, source, r, h => by
    obtain ⟨storage, hs, h⟩ := bind_eq_ok h
    obtain ⟨item, hi, h⟩ := bind_eq_ok h
    cases h
    exact items hs (toHost_induction primitive items entries hi) ("add", .callName "set" [])
      (List.mem_cons_of_mem _ List.mem_cons_self)
  | .map k v, source, r, h => by
    obtain ⟨storage, hs, h⟩ := bind_eq_ok h
    obtain ⟨key, hk, h⟩ := bind_eq_ok h
    obtain ⟨value, hv, h⟩ := bind_eq_ok h
    cases h
    exact entries hs (toHost_induction primitive items entries hk)
      (toHost_induction primitive items entries hv)

end WrapGen.Catalog
