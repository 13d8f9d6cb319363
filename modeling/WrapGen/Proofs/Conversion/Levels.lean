import WrapGen.Proofs.Conversion.Introduced

/-!
# Every level is named for its variable

A conversion reads the stem of its source and makes up the names of its level from it. The
source of the next level is the variable of the loop, or a part of what the position of the
walk refers to, and its stem is read again. The names are made of words joined by single
underscores, and of such a name nothing is lost when it is read.

* `Catalog.toStorage_eq_named`, `Catalog.toHost_eq_named`: the conversions are the ones that
  hand the name of the variable down and read no stem but that of the first source.
* `Catalog.stems_stable`: stems are words joined by single underscores, what extends a stem
  by words is read as it is, and so every level starts from the name of its variable.
-/
namespace WrapGen

open Code Text

namespace Catalog

/-! ## Conversions that hand names down -/

/-- The code that makes a storage value, for a level with the given name: the level inside a
loop is named for the variable of the loop. -/
def toStorageNamed (c : Catalog) (name : String) (source : Expr) :
    ElementType → Except DescriptorError Recipe
  | .primitive p => do
    let entry ← c.entry p
    return entry.toStorage.bind source name
  | .vector e => do
    let itemName := name ++ "_item"
    let storage ← c.storageType (.vector e)
    let item ← c.toStorageNamed itemName (.name itemName) e
    return .storeItems name storage "push_back" source item
  | .set e => do
    let itemName := name ++ "_item"
    let storage ← c.storageType (.set e)
    let item ← c.toStorageNamed itemName (.name itemName) e
    return .storeItems name storage "insert" source item
  | .map k v => do
    let keyName := name ++ "_key"
    let valueName := name ++ "_val"
    let storage ← c.storageType (.map k v)
    let key ← c.toStorageNamed keyName (.name keyName) k
    let value ← c.toStorageNamed valueName (.name valueName) v
    return .storeEntries name storage source key value

/-- The code that makes a host value, for a level with the given name: the level inside a
walk is named for its position, and for the part of an entry. -/
def toHostNamed (c : Catalog) (name : String) (source : Expr) :
    ElementType → Except DescriptorError Recipe
  | .primitive p => do
    let entry ← c.entry p
    return entry.toHost.bind source name
  | .vector e => do
    let positionName := name ++ "_iter"
    let storage ← c.storageType (.vector e)
    let item ← c.toHostNamed positionName (.deref (.name positionName)) e
    return .loadItems name storage "append" source (.list []) item
  | .set e => do
    let positionName := name ++ "_iter"
    let storage ← c.storageType (.set e)
    let item ← c.toHostNamed positionName (.deref (.name positionName)) e
    return .loadItems name storage "add" source (.callName "set" []) item
  | .map k v => do
    let positionName := name ++ "_iter"
    let entry := Expr.deref (.name positionName)
    let storage ← c.storageType (.map k v)
    let key ← c.toHostNamed (positionName ++ "_first") (.attr entry "first") k
    let value ← c.toHostNamed (positionName ++ "_second") (.attr entry "second") v
    return .loadEntries name storage source key value

variable (c : Catalog)

/-- The stem of a source is the name of its level, and below that the names are handed
down. -/
theorem toStorage_eq_named : ∀ (t : ElementType) (source : Expr),
    c.toStorage source t = c.toStorageNamed source.stem source t
  | .primitive _, _ => rfl
  | .vector e, source => by
    have hitem := stem_name_suffix (isStem_stem_expr source) item_isSuffix
    rw [toStorage, toStorageNamed]
    simp only [toStorage_eq_named e, hitem]
  | .set e, source => by
    have hitem := stem_name_suffix (isStem_stem_expr source) item_isSuffix
    rw [toStorage, toStorageNamed]
    simp only [toStorage_eq_named e, hitem]
  | .map k v, source => by
    have hkey := stem_name_suffix (isStem_stem_expr source) key_isSuffix
    have hvalue := stem_name_suffix (isStem_stem_expr source) val_isSuffix
    rw [toStorage, toStorageNamed]
    simp only [toStorage_eq_named k, toStorage_eq_named v, hkey, hvalue]

theorem toHost_eq_named : ∀ (t : ElementType) (source : Expr),
    c.toHost source t = c.toHostNamed source.stem source t
  | .primitive _, _ => rfl
  | .vector e, source => by
    have hitem := stem_itemAt source
    rw [itemAt] at hitem
    rw [toHost, toHostNamed]
    simp only [toHost_eq_named e, hitem]
  | .set e, source => by
    have hitem := stem_itemAt source
    rw [itemAt] at hitem
    rw [toHost, toHostNamed]
    simp only [toHost_eq_named e, hitem]
  | .map k v, source => by
    have hkey := stem_first (isStem_stem_expr source)
    have hvalue := stem_second (isStem_stem_expr source)
    rw [toHost, toHostNamed]
    simp only [toHost_eq_named k, toHost_eq_named v, hkey, hvalue]

/-! ## Stable stems -/

/-- The stem of every expression is one or more words joined by single underscores. Such
texts, and no others, are names that are read as they are; a stem that is extended by words
is one of them. So the code for every type, from any catalog and in both directions, is the
code that names each level for the variable of the level above. -/
theorem stems_stable :
    (∀ e : Expr, IsStem e.stem ∧ SingleUnderscores e.stem) ∧
    (∀ s, (Expr.name s).stem = s ↔ IsStem s) ∧
    (∀ p w, IsStem p → IsStem w → (Expr.name (p ++ "_" ++ w)).stem = p ++ "_" ++ w) ∧
    ∀ (c : Catalog) (t : ElementType) (source : Expr),
      c.toStorage source t = c.toStorageNamed source.stem source t ∧
      c.toHost source t = c.toHostNamed source.stem source t := by
  refine ⟨fun e => ?_, fun s => stem_eq_self_iff, fun p w hp hw => ?_, fun c t source => ?_⟩
  · have hstem := isStem_stem_expr e
    exact ⟨hstem, hstem.singleUnderscores⟩
  · exact stem_of_isStem (hp.append hw)
  · exact ⟨c.toStorage_eq_named t source, c.toHost_eq_named t source⟩

/-- The key of an entry, inside a walk that is named for its source. -/
theorem stems_stable_first : IsStem "pairs_iter" ∧ IsStem "first" ∧
    (Expr.name "pairs_iter_first").stem = "pairs_iter_first" := by
  obtain ⟨-, -, hextend, -⟩ := stems_stable
  have hlevel : IsStem "pairs_iter" := isStem_iff_fields.mpr (by decide)
  have hword : IsStem "first" := isStem_iff_fields.mpr (by decide)
  exact ⟨hlevel, hword, hextend "pairs_iter" "first" hlevel hword⟩

/-- Of punctuation single underscores are left, and a word stands for what has no letters. -/
example : (Expr.attr (.index (.name "__x..y__") (.int 0)) "é").stem = "x_y_at_tmp" := by
  decide +kernel

end Catalog

end WrapGen
