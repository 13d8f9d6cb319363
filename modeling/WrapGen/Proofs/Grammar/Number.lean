import WrapGen.Code.LiteralText
import WrapGen.Proofs.Decimal.Nearest
import WrapGen.Proofs.Grammar.Literal

/-!
# Numbers read back

`Numeral` is the syntax of decimal numerals and `Number` that of the sums that complex
numbers are written as, both with what a text stands for, exactly. A text stands for one
number at most (`Number.unique`), as for literals.

* `float_reads_back`: the text of a float that is a number, but not zero, is read as that
  float and as no other.
* `complex_reads_back`: so are the parts of a complex number.
-/
namespace WrapGen.Grammar

open Code Decimal Binary

/-! ## The syntax of numbers -/

/-- Digits, maybe with a point among them, and what they stand for. -/
inductive Mantissa : List Char → ℚ → Prop
  | whole {ds} : IsDecimal ds → Mantissa ds (Nat.ofDigitChars 10 ds 0)
  | point {ds fs} : IsDigits ds → IsDigits fs →
      Mantissa (ds ++ '.' :: fs) (Nat.ofDigitChars 10 (ds ++ fs) 0 / 10 ^ fs.length)

/-- A decimal numeral and the number that it stands for. -/
inductive Numeral : List Char → ℚ → Prop
  | plain {m v} : Mantissa m v → Numeral m v
  | scaled {m es v} {e : ℤ} : Mantissa m v → Denotes es (.int e) →
      Numeral (m ++ 'e' :: es) (v * 10 ^ e)

/-- Where a text about numbers stands: a term, or what follows the first term of a sum. -/
inductive Part where
  | term
  | rest

/-- The real and the imaginary part of the number that a text stands for. -/
inductive Number : Part → List Char → ℚ × ℚ → Prop
  | real {ds v} : Numeral ds v → Number .term ds (v, 0)
  | imaginary {ds v} : Numeral ds v → Number .term (ds ++ ['j']) (0, v)
  | negative {ds z} : Number .term ds z → Number .term ('-' :: ds) (-z)
  | sum {ds cs z w} : Number .term ds z → Number .rest cs w →
      Number .term ('(' :: (ds ++ (cs ++ [')']))) (z + w)
  | done : Number .rest [] 0
  | plus {ds cs z w} : Number .term ds z → Number .rest cs w →
      Number .rest ('+' :: (ds ++ cs)) (z + w)
  | minus {ds cs z w} : Number .term ds z → Number .rest cs w →
      Number .rest ('-' :: (ds ++ cs)) (-z + w)

/-! ## Where a number ends -/

/-- What a text does not start with. -/
def Avoids (marks : List Char) (cs : List Char) : Prop :=
  ∀ c ∈ cs.head?, c.isDigit = false ∧ c ∉ marks

theorem avoids_cons {marks : List Char} {c : Char} (hc : c.isDigit = false) (hm : c ∉ marks)
    (cs : List Char) : Avoids marks (c :: cs) := by
  simpa [Avoids] using ⟨hc, hm⟩

theorem Avoids.ends {marks cs : List Char} (h : Avoids marks cs) : Ends cs :=
  fun c hc => (h c hc).1

theorem Avoids.mono {marks others cs : List Char} (h : Avoids marks cs) (hsub : others ⊆ marks) :
    Avoids others cs :=
  fun c hc => ⟨(h c hc).1, fun hm => (h c hc).2 (hsub hm)⟩

theorem Avoids.ne_cons {marks cs ds : List Char} {c : Char} (h : Avoids marks cs)
    (hm : c ∈ marks) : cs ≠ c :: ds := by
  rintro rfl
  exact (h c rfl).2 hm

section
variable {ds es r s : List Char} {v w : ℚ}

theorem Mantissa.decodes (h : Mantissa ds v) (h' : Mantissa es w) (hr : Avoids ['.'] r)
    (hs : Avoids ['.'] s) (heq : ds ++ r = es ++ s) : v = w ∧ r = s := by
  have hpoint : '.' ∈ ['.'] := List.mem_cons_self
  cases h with
  | whole hd =>
    cases h' with
    | whole he =>
      obtain ⟨rfl, rfl⟩ := hd.decodes he.toIsDigits hr.ends hs.ends heq
      exact ⟨rfl, rfl⟩
    | point he =>
      rw [List.append_assoc, List.cons_append] at heq
      exact absurd (hd.decodes he hr.ends (ends_cons rfl _) heq).2 (hr.ne_cons hpoint)
  | point hd hf =>
    rw [List.append_assoc, List.cons_append] at heq
    cases h' with
    | whole he =>
      exact absurd (hd.decodes he.toIsDigits (ends_cons rfl _) hs.ends heq).2.symm
        (hs.ne_cons hpoint)
    | point he hg =>
      rw [List.append_assoc, List.cons_append] at heq
      obtain ⟨rfl, htail⟩ := hd.decodes he (ends_cons rfl _) (ends_cons rfl _) heq
      obtain ⟨rfl, rfl⟩ := hf.decodes hg hr.ends hs.ends (List.cons.inj htail).2
      exact ⟨rfl, rfl⟩

theorem Numeral.decodes (h : Numeral ds v) (h' : Numeral es w) (hr : Avoids ['.', 'e'] r)
    (hs : Avoids ['.', 'e'] s) (heq : ds ++ r = es ++ s) : v = w ∧ r = s := by
  have he : 'e' ∈ ['.', 'e'] := by decide
  have hscale (t : List Char) : Avoids ['.'] ('e' :: t) := avoids_cons rfl (by decide) t
  cases h with
  | plain hm =>
    have hr' : Avoids ['.'] r := hr.mono (by simp)
    cases h' with
    | plain hm' => exact hm.decodes hm' hr' (hs.mono (by simp)) heq
    | scaled hm' =>
      rw [List.append_assoc, List.cons_append] at heq
      exact absurd (hm.decodes hm' hr' (hscale _) heq).2 (hr.ne_cons he)
  | scaled hm hscaled =>
    rw [List.append_assoc, List.cons_append] at heq
    cases h' with
    | plain hm' =>
      exact absurd (hm.decodes hm' (hscale _) (hs.mono (by simp)) heq).2.symm (hs.ne_cons he)
    | scaled hm' hscaled' =>
      rw [List.append_assoc, List.cons_append] at heq
      obtain ⟨rfl, heq⟩ := hm.decodes hm' (hscale _) (hscale _) heq
      obtain ⟨hsame, rfl⟩ :=
        hscaled.decodes _ _ _ _ hscaled' hr.ends hs.ends (List.cons.inj heq).2
      cases hsame
      exact ⟨rfl, rfl⟩

theorem Mantissa.exists_cons (h : Mantissa ds v) : ∃ d t, ds = d :: t ∧ d.isDigit = true := by
  cases h with
  | whole hd => exact hd.exists_cons
  | point hd =>
    obtain ⟨d, t, rfl, hdigit⟩ := hd.exists_cons
    exact ⟨d, _, rfl, hdigit⟩

theorem Numeral.exists_cons (h : Numeral ds v) : ∃ d t, ds = d :: t ∧ d.isDigit = true := by
  cases h with
  | plain hm => exact hm.exists_cons
  | scaled hm =>
    obtain ⟨d, t, rfl, hdigit⟩ := hm.exists_cons
    exact ⟨d, _, rfl, hdigit⟩

theorem Numeral.cons_ne_append (h : Numeral ds v) {c : Char} (hc : c.isDigit = false) :
    c :: r ≠ ds ++ s := by
  obtain ⟨d, t, rfl, hd⟩ := h.exists_cons
  rintro heq
  rw [(List.cons.inj heq).1, hd] at hc
  cases hc

end

/-- What may stand behind a part of a number. -/
def Part.Follows : Part → List Char → Prop
  | .term, cs => Avoids ['.', 'e', 'j'] cs
  | .rest, cs => ∃ t, cs = ')' :: t

namespace Number

variable {p : Part} {ds es r s : List Char} {z w : ℚ × ℚ}

theorem follows_rest (h : Number .rest ds z) (r : List Char) :
    Part.Follows .term (ds ++ ')' :: r) := by
  cases h <;> exact avoids_cons rfl (by decide) _

/-- A number ends by itself where no numeral goes on. -/
theorem decodes (h : Number p ds z) : ∀ {es w r s}, Number p es w → p.Follows r → p.Follows s →
    ds ++ r = es ++ s → z = w ∧ r = s := by
  have hj : 'j' ∈ ['.', 'e', 'j'] := by decide
  have himaginary (t : List Char) : Avoids ['.', 'e'] ('j' :: t) := avoids_cons rfl (by decide) t
  induction h with
  | real hv =>
    intro es w r s h' hr hs heq
    cases h' with
    | real hw =>
      obtain ⟨rfl, rfl⟩ := hv.decodes hw (hr.mono (by simp)) (hs.mono (by simp)) heq
      exact ⟨rfl, rfl⟩
    | imaginary hw =>
      rw [List.append_assoc, List.singleton_append] at heq
      exact absurd (hv.decodes hw (hr.mono (by simp)) (himaginary _) heq).2 (hr.ne_cons hj)
    | negative | sum => exact absurd heq.symm (hv.cons_ne_append rfl)
  | imaginary hv =>
    intro es w r s h' hr hs heq
    rw [List.append_assoc, List.singleton_append] at heq
    cases h' with
    | real hw =>
      exact absurd (hv.decodes hw (himaginary _) (hs.mono (by simp)) heq).2.symm (hs.ne_cons hj)
    | imaginary hw =>
      rw [List.append_assoc, List.singleton_append] at heq
      obtain ⟨rfl, heq⟩ := hv.decodes hw (himaginary _) (himaginary _) heq
      exact ⟨rfl, (List.cons.inj heq).2⟩
    | negative | sum => exact absurd heq.symm (hv.cons_ne_append rfl)
  | negative _ ih =>
    intro es w r s h' hr hs heq
    cases h' with
    | real hw => exact absurd heq (hw.cons_ne_append rfl)
    | imaginary hw =>
      rw [List.append_assoc] at heq
      exact absurd heq (hw.cons_ne_append rfl)
    | negative h' =>
      obtain ⟨rfl, rfl⟩ := ih h' hr hs (List.cons.inj heq).2
      exact ⟨rfl, rfl⟩
    | sum => exact absurd (List.cons.inj heq).1 (by decide)
  | sum _ hrest ihterm ihrest =>
    intro es w r s h' hr hs heq
    cases h' with
    | real hw => exact absurd heq (hw.cons_ne_append rfl)
    | imaginary hw =>
      rw [List.append_assoc] at heq
      exact absurd heq (hw.cons_ne_append rfl)
    | negative => exact absurd (List.cons.inj heq).1 (by decide)
    | sum h' hrest' =>
      simp only [List.cons_append, List.append_assoc, List.nil_append, List.cons.injEq] at heq
      obtain ⟨rfl, heq⟩ := ihterm h' (hrest.follows_rest _) (hrest'.follows_rest _) heq.2
      obtain ⟨rfl, heq⟩ := ihrest hrest' ⟨_, rfl⟩ ⟨_, rfl⟩ heq
      exact ⟨rfl, (List.cons.inj heq).2⟩
  | done =>
    rintro es w r s h' ⟨t, rfl⟩ - heq
    cases h' with
    | done => exact ⟨rfl, heq⟩
    | plus | minus => exact absurd (List.cons.inj heq).1 (by decide)
  | plus _ hrest ihterm ihrest =>
    rintro es w r s h' ⟨t, rfl⟩ ⟨u, rfl⟩ heq
    cases h' with
    | done | minus => exact absurd (List.cons.inj heq).1 (by decide)
    | plus h' hrest' =>
      simp only [List.cons_append, List.append_assoc, List.cons.injEq] at heq
      obtain ⟨rfl, heq⟩ := ihterm h' (hrest.follows_rest _) (hrest'.follows_rest _) heq.2
      obtain ⟨rfl, heq⟩ := ihrest hrest' ⟨_, rfl⟩ ⟨_, rfl⟩ heq
      exact ⟨rfl, heq⟩
  | minus _ hrest ihterm ihrest =>
    rintro es w r s h' ⟨t, rfl⟩ ⟨u, rfl⟩ heq
    cases h' with
    | done | plus => exact absurd (List.cons.inj heq).1 (by decide)
    | minus h' hrest' =>
      simp only [List.cons_append, List.append_assoc, List.cons.injEq] at heq
      obtain ⟨rfl, heq⟩ := ihterm h' (hrest.follows_rest _) (hrest'.follows_rest _) heq.2
      obtain ⟨rfl, heq⟩ := ihrest hrest' ⟨_, rfl⟩ ⟨_, rfl⟩ heq
      exact ⟨rfl, heq⟩

/-- A text stands for at most one number. -/
theorem unique (h : Number .term ds z) (h' : Number .term ds w) : z = w :=
  (h.decodes h' (r := []) (s := []) nofun nofun rfl).1

end Number

/-! ## The texts of numbers -/

theorem isDigits_append {ds es : List Char} (hd : IsDigits ds) (he : ∀ e ∈ es, e.isDigit = true) :
    IsDigits (ds ++ es) where
  ne_nil h := hd.ne_nil (List.append_eq_nil_iff.mp h).1
  digits c hc := (List.mem_append.mp hc).elim (hd.digits c) (he c)

theorem isDigit_replicate (n : ℕ) : ∀ c ∈ List.replicate n '0', c.isDigit = true := by
  intro c hc
  rw [List.eq_of_mem_replicate hc]
  rfl

theorem isDigits_zero : IsDigits ['0'] := ⟨by simp, by simp⟩

theorem ofDigitChars_zeros (n : ℕ) (ds : List Char) :
    Nat.ofDigitChars 10 (List.replicate n '0' ++ ds) 0 = Nat.ofDigitChars 10 ds 0 := by
  rw [Nat.ofDigitChars_append, Nat.ofDigitChars_replicate_zero, Nat.mul_zero]

/-- The digits of a number with the point at a place. -/
theorem mantissa_positional {ds : List Char} (h : IsDigits ds) (point : ℤ) :
    Mantissa (positional ds point) (Nat.ofDigitChars 10 ds 0 * 10 ^ (point - ds.length)) := by
  unfold positional
  split
  · next hpoint =>
    have hfraction : IsDigits (List.replicate (-point).toNat '0' ++ ds) :=
      ⟨by simp [h.ne_nil], fun c hc => (List.mem_append.mp hc).elim (isDigit_replicate _ c)
        (h.digits c)⟩
    have hm := Mantissa.point isDigits_zero hfraction
    have hvalue : Nat.ofDigitChars 10 (['0'] ++ (List.replicate (-point).toNat '0' ++ ds)) 0 =
        Nat.ofDigitChars 10 ds 0 := by
      rw [Nat.ofDigitChars_append]
      exact ofDigitChars_zeros _ ds
    have hplace : point - ds.length =
        -((List.replicate (-point).toNat '0' ++ ds).length : ℤ) := by
      rw [List.length_append, List.length_replicate]
      push_cast
      omega
    rwa [hvalue, div_eq_mul_inv, ← zpow_natCast, ← zpow_neg, ← hplace] at hm
  · split
    · next hpoint hlength =>
      have hm := Mantissa.point
        (isDigits_append h (isDigit_replicate (point.toNat - ds.length))) isDigits_zero
      have hplace : point - ds.length = ((point.toNat - ds.length : ℕ) : ℤ) := by omega
      rw [Nat.ofDigitChars_append, Nat.ofDigitChars_append, Nat.ofDigitChars_replicate_zero] at hm
      rw [hplace, zpow_natCast]
      have hvalue : ((Nat.ofDigitChars 10 ['0']
          (10 ^ (point.toNat - ds.length) * Nat.ofDigitChars 10 ds 0) : ℕ) : ℚ) / 10 ^ ['0'].length =
          Nat.ofDigitChars 10 ds 0 * 10 ^ (point.toNat - ds.length) := by
        simp [Nat.ofDigitChars_cons]
        ring
      rw [hvalue] at hm
      simpa using hm
    · next hpoint hlength =>
      have hwhole : IsDigits (ds.take point.toNat) := by
        refine ⟨fun hnil => ?_, fun c hc => h.digits c (List.mem_of_mem_take hc)⟩
        rcases List.take_eq_nil_iff.mp hnil with hzero | hnil
        · omega
        · exact h.ne_nil hnil
      have hfraction : IsDigits (ds.drop point.toNat) := by
        refine ⟨fun hnil => ?_, fun c hc => h.digits c (List.mem_of_mem_drop hc)⟩
        have := List.drop_eq_nil_iff.mp hnil
        omega
      have hm := Mantissa.point hwhole hfraction
      have hplace : point - ds.length = -((ds.drop point.toNat).length : ℤ) := by
        rw [List.length_drop]
        omega
      rwa [List.take_append_drop, div_eq_mul_inv, ← zpow_natCast, ← zpow_neg, ← hplace] at hm

/-- One digit, the others behind the point, and an exponent. -/
theorem numeral_scientific {ds : List Char} (h : IsDigits ds) (exponent : ℤ) :
    Numeral (scientific ds exponent)
      (Nat.ofDigitChars 10 ds 0 * 10 ^ (1 - (ds.length : ℤ)) * 10 ^ exponent) := by
  unfold scientific
  refine .scaled ?_ (denotes_int exponent)
  match ds, h with
  | [d], h =>
    have hleading : [d].head? = some '0' → [d] = ['0'] := by simp
    have hm := Mantissa.whole ⟨h, hleading⟩
    simpa using hm
  | d :: e :: rest, h =>
    have hwhole : IsDigits [d] := ⟨by simp, by simpa using h.digits d (by simp)⟩
    have hfraction : IsDigits (e :: rest) :=
      ⟨by simp, fun c hc => h.digits c (List.mem_cons_of_mem d hc)⟩
    have hm := Mantissa.point hwhole hfraction
    have hplace : 1 - ((d :: e :: rest).length : ℤ) = -((e :: rest).length : ℤ) := by
      rw [List.length_cons]
      push_cast
      ring
    rwa [div_eq_mul_inv, ← zpow_natCast, ← zpow_neg, ← hplace] at hm

/-- A decimal is written as a numeral for it. -/
theorem numeral_write (l : Layout) (d : Decimal) : Numeral (write l d) d.value := by
  have hdigits : IsDigits (digitsOf d.digits) := (isDecimal_toDigits d.digits).toIsDigits
  have hvalue : Nat.ofDigitChars 10 (digitsOf d.digits) 0 = d.digits := Nat.ofDigitChars_ten_toDigits
  unfold write
  dsimp only
  split
  · have hm := mantissa_positional hdigits
      (((digitsOf d.digits).length : ℤ) + d.exponent - 1 + 1)
    rw [hvalue, show ((digitsOf d.digits).length : ℤ) + d.exponent - 1 + 1 -
      (digitsOf d.digits).length = d.exponent by ring] at hm
    exact .plain hm
  · have hn := numeral_scientific hdigits (((digitsOf d.digits).length : ℤ) + d.exponent - 1)
    rwa [hvalue, mul_assoc, ← zpow_add₀ (by norm_num),
      show 1 - ((digitsOf d.digits).length : ℤ) + ((digitsOf d.digits).length + d.exponent - 1) =
        d.exponent by ring] at hn

/-- The decimal that the magnitude of a finite word is written as. -/
def written {f : Format} (x : Word f) : ℚ :=
  if x.isZero then 0 else (Neighbourhood.ofWord x).shortest.value

theorem numeral_magnitude (l : Layout) {f : Format} (x : Word f) :
    Numeral (writeMagnitude l x) (written x) := by
  unfold writeMagnitude written
  split
  · have hm := Mantissa.point isDigits_zero isDigits_zero
    have hzero : Nat.ofDigitChars 10 (['0'] ++ ['0']) 0 = 0 := rfl
    rw [hzero, Nat.cast_zero, zero_div] at hm
    exact .plain hm
  · exact numeral_write l _

variable {x re im : Double}

theorem floatText_of_isFinite (h : x.isFinite = true) : (floatText x).toList =
    (if x.isNegative then ['-'] else []) ++ writeMagnitude Layout.standard x := by
  have hlt : x.magnitude < Format.binary64.infinity := of_decide_eq_true h
  unfold floatText Layout.text
  rw [Word.isNaN_of_lt hlt, Word.isInfinite_of_lt hlt]
  cases x.isNegative <;> simp

/-- A number with the sign that a word is written with. -/
theorem number_signed {x : Double} {ds : List Char} {z : ℚ × ℚ} (h : Number .term ds z) :
    Number .term ((if x.isNegative then ['-'] else []) ++ ds) (x.signed z.1, x.signed z.2) := by
  unfold Word.signed
  cases x.isNegative
  · exact h
  · exact h.negative

/-- The text of a finite float is a numeral with its sign. -/
theorem number_float (h : x.isFinite = true) :
    Number .term (floatText x).toList (x.signed (written x), 0) := by
  have hreal := number_signed (x := x) (.real (numeral_magnitude Layout.standard x))
  rwa [← floatText_of_isFinite h, Word.signed_zero] at hreal

theorem magnitude_abs (x : Double) : x.abs.magnitude = x.magnitude :=
  Word.magnitude_ofParts x.magnitude_lt

theorem isNegative_abs (x : Double) : x.abs.isNegative = false :=
  Word.isNegative_ofParts x.magnitude_lt

/-- The text of the magnitude of a finite float. -/
theorem floatText_abs (h : x.isFinite = true) :
    (floatText x.abs).toList = writeMagnitude Layout.standard x := by
  have hfinite : x.abs.isFinite = true := by
    rw [Word.isFinite, magnitude_abs]
    exact h
  have hword : Neighbourhood.ofWord x.abs = Neighbourhood.ofWord x := by
    unfold Neighbourhood.ofWord Word.units Word.unitExponent Word.exponentField Word.fractionField
    rw [magnitude_abs]
  rw [floatText_of_isFinite hfinite, isNegative_abs, writeMagnitude, writeMagnitude, Word.isZero,
    Word.isZero, magnitude_abs, hword]
  rfl

/-- The text of a complex number with finite parts is the sum of these, or the imaginary
part alone. -/
theorem number_complex (hre : re.isFinite = true) (him : im.isFinite = true) :
    Number .term (complexText re im).toList
      (re.signed (written re), im.signed (written im)) := by
  have himaginary := Number.imaginary (numeral_magnitude Layout.standard im)
  unfold complexText
  split
  · next hzero =>
    have hsigned := number_signed (x := im) himaginary
    have hreal : re.signed (written re) = 0 := by
      have : re.isZero = true := by rw [hzero]; decide
      rw [written, if_pos this, Word.signed_zero]
    rw [Word.signed_zero] at hsigned
    rw [hreal, String.toList_append, floatText_of_isFinite him, List.append_assoc]
    exact hsigned
  · have habs := floatText_abs him
    have hsum : Number .rest ((if im.isNegative then "-" else "+").toList ++
        (writeMagnitude Layout.standard im ++ ['j'])) (0, im.signed (written im)) := by
      unfold Word.signed
      cases im.isNegative
      · simpa using Number.plus himaginary .done
      · simpa using Number.minus himaginary .done
    have hterm := Number.sum (number_float hre) hsum
    rw [Prod.mk_add_mk, add_zero, zero_add] at hterm
    simpa [habs] using hterm

theorem nearest_written_iff {y : Double} (h : x.isFinite = true) (hx : x.isZero = false) :
    Word.Nearest (x.signed (written x)) y ↔ y = x := by
  have hunits : x.units ≠ 0 := by
    rw [Ne, Word.units_eq_zero_iff]
    simpa [Word.isZero] using hx
  rw [written, hx]
  exact Word.nearest_shortest_iff (by decide) h hunits

/-- The text of a float that is a number, but not zero, stands for a number that is read
as that float and as no other. -/
theorem float_reads_back (h : x.isFinite = true) (hx : x.isZero = false) :
    ∃ v, (∀ z, Number .term (floatText x).toList z ↔ z = (v, 0)) ∧
      ∀ y, Word.Nearest v y ↔ y = x := by
  refine ⟨_, fun z => ⟨fun hz => hz.unique (number_float h), ?_⟩, fun y => nearest_written_iff h hx⟩
  rintro rfl
  exact number_float h

/-- The text of a complex number with finite parts, neither of them zero, stands for one
number, and its parts are read as these and as nothing else. -/
theorem complex_reads_back (hre : re.isFinite = true) (him : im.isFinite = true)
    (hrez : re.isZero = false) (himz : im.isZero = false) :
    ∃ v w, (∀ z, Number .term (complexText re im).toList z ↔ z = (v, w)) ∧
      (∀ y, Word.Nearest v y ↔ y = re) ∧ ∀ y, Word.Nearest w y ↔ y = im := by
  refine ⟨_, _, fun z => ⟨fun hz => hz.unique (number_complex hre him), ?_⟩,
    fun y => nearest_written_iff hre hrez, fun y => nearest_written_iff him himz⟩
  rintro rfl
  exact number_complex hre him

end WrapGen.Grammar
