import WrapGen.Element.Basic
import WrapGen.Proofs.Naming.Stem

/-!
# Types in Polish notation

Every spelling of a type goes through the same symbols: a container, then what
is inside, and a primitive at each leaf. A container has a fixed number of
arguments, so the symbols alone tell the type, also when more symbols follow
(`polish_cut`).

Two ways of writing symbols down lose nothing:

* `PrefixFree.flatMap_injective`: one after the other, if no symbol starts
  another.
* `intercalate_injective`: with underscores between them, if every symbol is a
  word.
-/
namespace WrapGen

/-- A symbol of a type in Polish notation. -/
inductive Symbol where
  | primitive (p : Primitive)
  | container (c : Container)
  deriving DecidableEq, Repr

namespace Symbol

/-- Every symbol. -/
def all : List Symbol :=
  Primitive.all.map .primitive ++ [.container .vector, .container .set, .container .map]

theorem mem_all (s : Symbol) : s ∈ all := by
  cases s with
  | primitive p => cases p <;> decide
  | container c => cases c <;> decide

/-- The token of a symbol. -/
def token : Symbol → String
  | primitive p => p.token
  | container c => c.token

end Symbol

namespace ElementType

/-- The symbols of a type. -/
def polish : ElementType → List Symbol
  | primitive p => [.primitive p]
  | vector e => .container .vector :: e.polish
  | set e => .container .set :: e.polish
  | map k v => .container .map :: (k.polish ++ v.polish)

theorem polish_ne_nil (t : ElementType) : t.polish ≠ [] := by
  cases t <;> exact List.cons_ne_nil _ _

/-- The symbols of a type end where the type does, whatever follows. -/
theorem polish_cut : ∀ {t u : ElementType} {a b : List Symbol},
    t.polish ++ a = u.polish ++ b → t = u ∧ a = b := by
  intro t
  induction t with
  | primitive p =>
    intro u a b h
    cases u with
    | primitive p' =>
      obtain ⟨hp, rfl⟩ := List.cons.inj h
      cases hp
      exact ⟨rfl, rfl⟩
    | vector | set | map => simp [polish] at h
  | vector e ih =>
    intro u a b h
    cases u with
    | vector e' =>
      obtain ⟨rfl, rfl⟩ := ih (List.cons.inj h).2
      exact ⟨rfl, rfl⟩
    | primitive | set | map => simp [polish] at h
  | set e ih =>
    intro u a b h
    cases u with
    | set e' =>
      obtain ⟨rfl, rfl⟩ := ih (List.cons.inj h).2
      exact ⟨rfl, rfl⟩
    | primitive | vector | map => simp [polish] at h
  | map k v ihk ihv =>
    intro u a b h
    cases u with
    | map k' v' =>
      have h : k.polish ++ v.polish ++ a = k'.polish ++ v'.polish ++ b := (List.cons.inj h).2
      rw [List.append_assoc, List.append_assoc] at h
      obtain ⟨rfl, hrest⟩ := ihk h
      obtain ⟨rfl, rfl⟩ := ihv hrest
      exact ⟨rfl, rfl⟩
    | primitive | vector | set => simp [polish] at h

theorem polish_injective {t u : ElementType} (h : t.polish = u.polish) : t = u :=
  (polish_cut (a := []) (b := []) (by rw [h])).1

end ElementType

/-! ## Symbols one after the other -/

/-- No word of the code starts another. -/
def PrefixFree {α β : Type} (f : α → List β) : Prop := ∀ a b, f a <+: f b → a = b

section
variable {α β : Type} {f : α → List β}

theorem PrefixFree.cut (h : PrefixFree f) {a b : α} {x y : List β} (he : f a ++ x = f b ++ y) :
    a = b ∧ x = y := by
  have ha : f a <+: f b ++ y := ⟨x, he⟩
  have hab : a = b := by
    rcases List.prefix_or_prefix_of_prefix ha (List.prefix_append (f b) y) with hp | hp
    · exact h a b hp
    · exact (h b a hp).symm
  subst hab
  exact ⟨rfl, List.append_cancel_left he⟩

/-- What is written in a code without prefixes and without empty words is read
in one way. -/
theorem PrefixFree.flatMap_injective (h : PrefixFree f) (hne : ∀ a, f a ≠ []) :
    ∀ {as bs : List α}, as.flatMap f = bs.flatMap f → as = bs
  | [], [], _ => rfl
  | [], b :: bs, he => by
    rw [List.flatMap_nil, List.flatMap_cons] at he
    exact absurd (List.append_eq_nil_iff.mp he.symm).1 (hne b)
  | a :: as, [], he => by
    rw [List.flatMap_nil, List.flatMap_cons] at he
    exact absurd (List.append_eq_nil_iff.mp he).1 (hne a)
  | a :: as, b :: bs, he => by
    rw [List.flatMap_cons, List.flatMap_cons] at he
    obtain ⟨hab, htail⟩ := h.cut he
    rw [hab, h.flatMap_injective hne htail]

end

/-! ## Symbols with underscores between them -/

/-- Words with underscores between them are read in one way. -/
theorem intercalate_injective {us vs : List String}
    (hus : ∀ w ∈ us, Text.IsWord w.toList) (hvs : ∀ w ∈ vs, Text.IsWord w.toList)
    (h : "_".intercalate us = "_".intercalate vs) : us = vs := by
  have hread : ∀ {ws : List String}, (∀ w ∈ ws, Text.IsWord w.toList) →
      Text.words Text.separates ("_".intercalate ws).toList = ws.map String.toList := by
    intro ws hw
    rw [String.toList_intercalate]
    refine Text.words_intercalate Text.underscore_separates ?_
    intro w hm
    obtain ⟨v, hv, rfl⟩ := List.mem_map.mp hm
    exact hw v hv
  have hmap : us.map String.toList = vs.map String.toList := by
    rw [← hread hus, ← hread hvs, h]
  exact (List.map_inj_right fun _ _ => String.toList_inj.mp).mp hmap

end WrapGen
