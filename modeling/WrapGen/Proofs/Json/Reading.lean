import Mathlib.Data.List.Basic
import WrapGen.Json.Reader

/-!
# What is written is read

The reader takes back what the writer has made of a value: a string with any
characters, and a value of any depth that holds no number, whatever follows it in
the text. Numbers are kept as they are written and need not be numbers at all, so
that nothing can be said of them here.

* `readString_quoted`: escaping loses nothing.
* `readValue_write`: a written value is read with steps to spare, and the reader
  stops where it ends.
* `read?_write`: a text that is a written value is read as this value.
-/
namespace WrapGen.Json

/-! ## Values without numbers -/

mutual

/-- Whether there is no number in a value. -/
def numberless : Json → Bool
  | .null | .bool _ | .string _ => true
  | .number _ => false
  | .array items => allNumberless items
  | .object members => membersNumberless members
termination_by structural j => j

/-- Whether there is no number in any of some values. -/
def allNumberless : List Json → Bool
  | [] => true
  | j :: js => j.numberless && allNumberless js
termination_by structural js => js

/-- Whether there is no number in any of some members. -/
def membersNumberless : List (String × Json) → Bool
  | [] => true
  | (_, j) :: ms => j.numberless && membersNumberless ms
termination_by structural ms => ms

end

theorem allNumberless_iff : ∀ {js : List Json},
    allNumberless js = true ↔ ∀ j ∈ js, j.numberless = true
  | [] => by simp [allNumberless]
  | j :: js => by simp [allNumberless, allNumberless_iff]

/-! ## Strings -/

/-- The two digits that a control character is written with. -/
theorem hex4?_hexPair : ∀ n < 0x20,
    hex4? '0' '0' (Nat.digitChar (n / 16 % 16)) (Nat.digitChar (n % 16)) = some n := by
  decide

theorem readString_control {c : Char} (hc : c.toNat < 0x20) (cs : List Char) :
    readString ('\\' :: 'u' :: '0' :: '0' :: (Text.hexPair c.toNat ++ cs)) =
      consRead c (readString cs) := by
  have hhigh : isHighSurrogate c.toNat = false := by
    simp [isHighSurrogate]
    omega
  have hlow : isLowSurrogate c.toNat = false := by
    simp [isLowSurrogate]
    omega
  simp only [Text.hexPair, List.cons_append, List.nil_append]
  rw [readString, hex4?_hexPair c.toNat hc]
  simp [hhigh, hlow, Char.ofNat_toNat]

theorem readString_plain {c : Char} (hq : c ≠ '"') (hb : c ≠ '\\') (hc : ¬ c.toNat < 0x20)
    (cs : List Char) : readString (c :: cs) = consRead c (readString cs) := by
  rw [readString.eq_def]
  split
  · rename_i h
    cases h
  · rename_i h
    exact absurd (List.cons.inj h).1 hq
  · rename_i h
    exact absurd (List.cons.inj h).1 hb
  · rename_i h
    exact absurd (List.cons.inj h).1 hb
  · rename_i h
    cases h
    exact if_neg hc

/-- An escaped character is read as the character. -/
theorem readString_escape (c : Char) (cs : List Char) :
    readString (escape c ++ cs) = consRead c (readString cs) := by
  unfold escape
  split
  all_goals try rfl
  split
  · rename_i hc
    exact readString_control hc cs
  · rename_i hc
    exact readString_plain ‹_› ‹_› hc cs

/-- A written string is read, whatever follows it. -/
theorem readString_quoted (s : List Char) (rest : List Char) :
    readString (s.flatMap escape ++ '"' :: rest) = some (s, rest) := by
  induction s with
  | nil => rfl
  | cons c s ih =>
    rw [List.flatMap_cons, List.append_assoc, readString_escape, ih]
    rfl

theorem quote_append (s : String) (rest : List Char) :
    quote s ++ rest = '"' :: (s.toList.flatMap escape ++ '"' :: rest) := by
  simp [quote]

/-! ## Values -/

theorem skipGaps_cons {c : Char} (h : isGap c = false) (cs : List Char) :
    skipGaps (c :: cs) = c :: cs := by
  simp [skipGaps, h]

/-- The characters that a value without numbers may start with. -/
def isStart (c : Char) : Bool := ['n', 't', 'f', '"', '[', '{'].contains c

theorem isGap_of_isStart {c : Char} (h : isStart c = true) : isGap c = false := by
  simp only [isStart, List.contains_eq_mem, List.mem_cons, List.not_mem_nil, or_false,
    decide_eq_true_eq] at h
  rcases h with rfl | rfl | rfl | rfl | rfl | rfl <;> rfl

theorem write_eq_cons : ∀ {j : Json}, j.numberless = true →
    ∃ c cs, j.write = c :: cs ∧ isStart c = true
  | .null, _ => ⟨_, _, rfl, rfl⟩
  | .bool true, _ => ⟨_, _, rfl, rfl⟩
  | .bool false, _ => ⟨_, _, rfl, rfl⟩
  | .string _, _ => ⟨_, _, rfl, rfl⟩
  | .array _, _ => ⟨_, _, rfl, rfl⟩
  | .object _, _ => ⟨_, _, rfl, rfl⟩

section
variable {n : Nat} {c : Char} {cs rest : List Char}

theorem readValue_string (s : String) :
    readValue (n + 1) (quote s ++ rest) = some (.string s, rest) := by
  rw [quote_append, readValue, skipGaps_cons rfl]
  simp [readString_quoted]

theorem readValue_array (hc : isStart c = true) : readValue (n + 1) ('[' :: c :: cs) =
    (readItems n (c :: cs)).map fun r => (.array r.1, r.2) := by
  rw [readValue, skipGaps_cons rfl]
  simp only [skipGaps_cons (isGap_of_isStart hc)]
  split
  · rename_i h
    cases h
    cases hc
  · rfl

theorem readValue_object : readValue (n + 1) ('{' :: '"' :: cs) =
    (readMembers n ('"' :: cs)).map fun r => (.object r.1, r.2) := by
  rw [readValue, skipGaps_cons rfl]
  rfl

/-- An item is read in front of the next one or of the end of the array. -/
theorem readItems_cons {j : Json} (h : readValue n cs = some (j, ',' :: rest)) :
    readItems (n + 1) cs = (readItems n rest).map fun r => (j :: r.1, r.2) := by
  rw [readItems, h]
  rfl

theorem readItems_last {j : Json} (h : readValue n cs = some (j, ']' :: rest)) :
    readItems (n + 1) cs = some ([j], rest) := by
  rw [readItems, h]
  rfl

/-- A member is read in front of the next one or of the end of the object. -/
theorem readMembers_cons {name : String} {j : Json}
    (h : readValue n cs = some (j, ',' :: rest)) :
    readMembers (n + 1) (quote name ++ ':' :: cs) =
      (readMembers n rest).map fun r => ((name, j) :: r.1, r.2) := by
  rw [quote_append, readMembers, skipGaps_cons rfl]
  simp [readString_quoted, skipGaps_cons, isGap, h]

theorem readMembers_last {name : String} {j : Json}
    (h : readValue n cs = some (j, '}' :: rest)) :
    readMembers (n + 1) (quote name ++ ':' :: cs) = some ([(name, j)], rest) := by
  rw [quote_append, readMembers, skipGaps_cons rfl]
  simp [readString_quoted, skipGaps_cons, isGap, h]

end

/-! ## Any depth -/

/-- The text between the brackets of an array. -/
def itemsText (js : List Json) : List Char := [','].intercalate (writeItems js)

/-- The text between the braces of an object. -/
def membersText (ms : List (String × Json)) : List Char := [','].intercalate (writeMembers ms)

theorem itemsText_singleton (j : Json) : itemsText [j] = j.write :=
  List.intercalate_singleton ..

theorem itemsText_cons (j : Json) {js : List Json} (h : js ≠ []) :
    itemsText (j :: js) = j.write ++ ',' :: itemsText js := by
  obtain ⟨k, js, rfl⟩ := List.exists_cons_of_ne_nil h
  unfold itemsText writeItems
  rw [writeItems, List.intercalate_cons_cons]
  simp

theorem membersText_singleton (name : String) (j : Json) :
    membersText [(name, j)] = quote name ++ ':' :: j.write :=
  List.intercalate_singleton ..

theorem membersText_cons (name : String) (j : Json) {ms : List (String × Json)} (h : ms ≠ []) :
    membersText ((name, j) :: ms) =
      quote name ++ ':' :: (j.write ++ ',' :: membersText ms) := by
  obtain ⟨⟨other, k⟩, ms, rfl⟩ := List.exists_cons_of_ne_nil h
  unfold membersText writeMembers
  rw [writeMembers, List.intercalate_cons_cons]
  simp

theorem itemsText_eq_cons {js : List Json} (hne : js ≠ []) (h : allNumberless js = true) :
    ∃ c cs, itemsText js = c :: cs ∧ isStart c = true := by
  obtain ⟨j, js, rfl⟩ := List.exists_cons_of_ne_nil hne
  obtain ⟨c, cs, hw, hc⟩ := write_eq_cons (allNumberless_iff.mp h j List.mem_cons_self)
  cases js with
  | nil => exact ⟨c, cs, by rw [itemsText_singleton, hw], hc⟩
  | cons k js => exact ⟨c, _, by rw [itemsText_cons j (List.cons_ne_nil k js), hw]; rfl, hc⟩

theorem membersText_eq_cons {ms : List (String × Json)} (hne : ms ≠ []) :
    ∃ cs, membersText ms = '"' :: cs := by
  obtain ⟨⟨name, j⟩, ms, rfl⟩ := List.exists_cons_of_ne_nil hne
  cases ms with
  | nil => exact ⟨_, by rw [membersText_singleton, quote_append]⟩
  | cons m ms =>
    exact ⟨_, by rw [membersText_cons name j (List.cons_ne_nil m ms), quote_append]⟩

mutual

/-- A written value is read, whatever follows it, with twice as many steps as it
has characters. -/
theorem readValue_write : ∀ {j : Json}, j.numberless = true → ∀ (n : Nat) (rest : List Char),
    2 * j.write.length ≤ n + 1 → readValue (n + 1) (j.write ++ rest) = some (j, rest)
  | .null, _, n, rest, _ => rfl
  | .bool true, _, n, rest, _ => rfl
  | .bool false, _, n, rest, _ => rfl
  | .string s, _, n, rest, _ => readValue_string s
  | .array items, h, n, rest, hn => by
    by_cases hne : items = []
    · subst hne
      rfl
    have hwrite : (array items).write = '[' :: (itemsText items ++ [']']) := rfl
    rw [hwrite, List.length_cons, List.length_append, List.length_singleton] at hn
    obtain ⟨n, rfl⟩ : ∃ k, n = k + 1 := ⟨n - 1, by omega⟩
    have hitems := readItems_write hne h n rest (by omega)
    obtain ⟨c, cs, htext, hc⟩ := itemsText_eq_cons hne h
    have hall : (array items).write ++ rest = '[' :: c :: (cs ++ ']' :: rest) := by
      rw [hwrite, htext]
      simp
    rw [htext, List.cons_append] at hitems
    rw [hall, readValue_array hc, hitems]
    rfl
  | .object members, h, n, rest, hn => by
    by_cases hne : members = []
    · subst hne
      rfl
    have hwrite : (object members).write = '{' :: (membersText members ++ ['}']) := rfl
    rw [hwrite, List.length_cons, List.length_append, List.length_singleton] at hn
    obtain ⟨n, rfl⟩ : ∃ k, n = k + 1 := ⟨n - 1, by omega⟩
    have hmembers := readMembers_write hne h n rest (by omega)
    obtain ⟨cs, htext⟩ := membersText_eq_cons hne
    have hall : (object members).write ++ rest = '{' :: '"' :: (cs ++ '}' :: rest) := by
      rw [hwrite, htext]
      simp
    rw [htext, List.cons_append] at hmembers
    rw [hall, readValue_object, hmembers]
    rfl
termination_by structural j => j

theorem readItems_write : ∀ {js : List Json}, js ≠ [] → allNumberless js = true →
    ∀ (n : Nat) (rest : List Char), 2 * (itemsText js).length ≤ n →
      readItems (n + 1) (itemsText js ++ ']' :: rest) = some (js, rest)
  | j :: js, _, h, n, rest, hn => by
    obtain ⟨hj, hjs⟩ := Bool.and_eq_true_iff.mp h
    obtain ⟨c, cs, hw, -⟩ := write_eq_cons hj
    have hpos : 1 ≤ j.write.length := by simp [hw]
    by_cases hne : js = []
    · subst hne
      rw [itemsText_singleton] at hn ⊢
      obtain ⟨n, rfl⟩ : ∃ k, n = k + 1 := ⟨n - 1, by omega⟩
      exact readItems_last (readValue_write hj n _ hn)
    · rw [itemsText_cons j hne, List.length_append, List.length_cons] at hn
      obtain ⟨n, rfl⟩ : ∃ k, n = k + 1 := ⟨n - 1, by omega⟩
      have hvalue := readValue_write hj n (',' :: (itemsText js ++ ']' :: rest)) (by omega)
      have hitems := readItems_write hne hjs n rest (by omega)
      rw [itemsText_cons j hne, List.append_assoc, List.cons_append, readItems_cons hvalue, hitems]
      rfl
termination_by structural js => js

theorem readMembers_write : ∀ {ms : List (String × Json)}, ms ≠ [] →
    membersNumberless ms = true →
    ∀ (n : Nat) (rest : List Char), 2 * (membersText ms).length ≤ n →
      readMembers (n + 1) (membersText ms ++ '}' :: rest) = some (ms, rest)
  | (name, j) :: ms, _, h, n, rest, hn => by
    obtain ⟨hj, hms⟩ := Bool.and_eq_true_iff.mp h
    by_cases hne : ms = []
    · subst hne
      rw [membersText_singleton, List.length_append, List.length_cons] at hn
      obtain ⟨n, rfl⟩ : ∃ k, n = k + 1 := ⟨n - 1, by omega⟩
      have hvalue := readValue_write hj n ('}' :: rest) (by omega)
      rw [membersText_singleton, List.append_assoc, List.cons_append]
      exact readMembers_last hvalue
    · rw [membersText_cons name j hne, List.length_append, List.length_cons, List.length_append,
        List.length_cons] at hn
      obtain ⟨n, rfl⟩ : ∃ k, n = k + 1 := ⟨n - 1, by omega⟩
      have hvalue := readValue_write hj n (',' :: (membersText ms ++ '}' :: rest)) (by omega)
      have hmembers := readMembers_write hne hms n rest (by omega)
      rw [membersText_cons name j hne, List.append_assoc, List.cons_append, List.append_assoc,
        List.cons_append, readMembers_cons hvalue, hmembers]
      rfl
termination_by structural ms => ms

end

/-- A text that is a written value without numbers is read as this value. -/
theorem read?_write {j : Json} (h : j.numberless = true) :
    read? (String.ofList j.write) = some j := by
  have hread := readValue_write h (2 * j.write.length + 1) [] (by omega)
  rw [List.append_nil] at hread
  simp [read?, stepBound, hread]

end WrapGen.Json
