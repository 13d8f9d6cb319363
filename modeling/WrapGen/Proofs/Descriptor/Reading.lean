import WrapGen.Proofs.Descriptor.Grammar

/-!
# The descriptors that are read

Reading a text is reading the same text without the blanks that do not matter,
and then inverting `compact`.

* `readChars_squeezeRuns`: blanks around delimiters and repeated blanks change nothing.
* `Takes.sound`, `Takes.text`: a step keeps what is open admitted, and adds what it
  reads to the text read so far.
* `readAfter_sound`: what was read so far, with the rest of the text, is the
  compact text of the result, and the result keeps within the depth limit.
* `readItem_compact`: the compact text of a well-formed descriptor is read to its end.
* `parse_eq_ok_iff`: the reader accepts the grammar, and reads each text the one
  way that the grammar allows.
* `parse_text_eq_ok_iff`: the text of a descriptor is read back exactly if the
  descriptor is well formed, as everything is that was read.
-/
namespace WrapGen.Descriptor

open Text

/-! ## Blanks -/

theorem all_isBlank_squeeze (run : List Char) :
    (squeeze run).all isBlank = run.all isBlank := by
  have hiff : ∀ cs : List Char, cs.all isBlank = true ↔ squeeze cs = [] := fun cs => by
    rw [List.all_eq_true, squeeze_eq_nil_iff]
  rw [Bool.eq_iff_iff, hiff, hiff, squeeze_squeeze]

theorem readAfter_squeezeAfter (stack : OpenHeads) (latest : Latest)
    (rest : List (Delimiter × List Char)) :
    readAfter stack latest (squeezeAfter rest) = readAfter stack latest rest := by
  induction rest generalizing stack latest with
  | nil => rfl
  | cons s rest ih =>
    have hcons : squeezeAfter (s :: rest) = (s.1, squeeze s.2) :: squeezeAfter rest := rfl
    obtain ⟨d, run⟩ := s
    rw [hcons]
    cases d with
    | opening => simp only [readAfter, nameOf_squeeze, ih]
    | comma => simp only [readAfter, nameOf_squeeze, ih]
    | closing => simp only [readAfter, all_isBlank_squeeze, ih]

/-- Blanks around delimiters and repeated blanks change nothing. -/
theorem readChars_squeezeRuns (cs : List Char) : readChars (squeezeRuns cs) = readChars cs := by
  unfold readChars
  rw [segments_squeezeRuns, nameOf_squeeze]
  simp only [readAfter_squeezeAfter]

/-! ## What is read is well formed -/

/-- A descriptor that may stand inside `depth` applications. -/
structure FitsIn (d : Descriptor) (depth : Nat) : Prop where
  named : d.Named
  nesting : d.nesting + depth ≤ maxNesting

/-- The heads of open applications are names, and the arguments read so far may
stand where they are. -/
def Admitted : OpenHeads → Prop
  | [] => True
  | (head, args) :: outer =>
    IsName head.toList ∧ (∀ a ∈ args, FitsIn a (outer.length + 1)) ∧ Admitted outer

/-- The compact text of what is open: each head, and its arguments with a comma
behind each. -/
def openText : OpenHeads → List Char
  | [] => []
  | (head, args) :: outer =>
    openText outer ++ (head.toList ++ '<' :: args.reverse.flatMap fun a => a.compact ++ [','])

theorem fitsIn_token {name : String} {depth : Nat} (h : IsName name.toList)
    (hd : depth ≤ maxNesting) : FitsIn (.token name) depth :=
  ⟨h, by simpa [nesting] using hd⟩

/-- Closing an application puts it one level further out. -/
theorem fitsIn_applied {head : String} {args : List Descriptor} {depth : Nat}
    (hhead : IsName head.toList) (hne : args ≠ []) (hargs : ∀ a ∈ args, FitsIn a (depth + 1)) :
    FitsIn (.applied head args) depth := by
  refine ⟨⟨hhead, hne, allNamed_iff.mpr fun a ha => (hargs a ha).named⟩, ?_⟩
  have hbound : ∀ a ∈ args, a.nesting ≤ maxNesting - (depth + 1) := fun a ha => by
    have := (hargs a ha).nesting
    omega
  have hdepth : depth + 1 ≤ maxNesting := by
    obtain ⟨a, ha⟩ := List.exists_mem_of_ne_nil args hne
    have := (hargs a ha).nesting
    omega
  have := nestingAll_le_iff.mpr hbound
  rw [nesting]
  omega

theorem intercalate_compactAll_append (args : List Descriptor) (last : Descriptor) :
    [','].intercalate (compactAll (args ++ [last])) =
      (args.flatMap fun a => a.compact ++ [',']) ++ last.compact := by
  induction args with
  | nil => simp [compactAll]
  | cons a args ih =>
    obtain ⟨b, bs, hb⟩ := List.exists_cons_of_ne_nil
      (show args ++ [last] ≠ [] by simp)
    rw [hb] at ih
    rw [List.cons_append, hb]
    simp only [compactAll] at ih ⊢
    rw [List.intercalate_cons_cons, ih]
    simp

theorem openText_head (outer : OpenHeads) (head : String) :
    openText ((head, []) :: outer) = openText outer ++ (head.toList ++ ['<']) := by
  simp [openText]

theorem openText_argument (outer : OpenHeads) (head : String) (args : List Descriptor)
    (a : Descriptor) : openText ((head, a :: args) :: outer) =
      openText ((head, args) :: outer) ++ (a.compact ++ [',']) := by
  simp [openText]

theorem openText_closed (outer : OpenHeads) (head : String) (args : List Descriptor)
    (a : Descriptor) : openText ((head, args) :: outer) ++ (a.compact ++ ['>']) =
      openText outer ++ (Descriptor.applied head (a :: args).reverse).compact := by
  rw [compact, List.reverse_cons, intercalate_compactAll_append]
  simp [openText]

/-! ## One step -/

/-- One delimiter and the run after it are read: they change the open applications
and the last item. -/
inductive Takes : OpenHeads → Latest → Delimiter → List Char → OpenHeads → Latest → Prop
  | opening {stack : OpenHeads} {head name : String} {run : List Char}
      (hdepth : stack.length ≠ maxNesting) (hname : nameOf run = .ok name) :
      Takes stack (.name head) .opening run ((head, []) :: stack) (.name name)
  | comma {outer : OpenHeads} {head name : String} {args : List Descriptor} {latest : Latest}
      {run : List Char} (hname : nameOf run = .ok name) :
      Takes ((head, args) :: outer) latest .comma run
        ((head, latest.descriptor :: args) :: outer) (.name name)
  | closing {outer : OpenHeads} {head : String} {args : List Descriptor} {latest : Latest}
      {run : List Char} (hblank : run.all isBlank = true) :
      Takes ((head, args) :: outer) latest .closing run outer
        (.closed (.applied head (latest.descriptor :: args).reverse))

/-- A text that is read is read by a first step and the steps after it. -/
theorem takes_of_readAfter {stack : OpenHeads} {latest : Latest} {delim : Delimiter}
    {run : List Char} {rest : List (Delimiter × List Char)} {d : Descriptor}
    (h : readAfter stack latest ((delim, run) :: rest) = .ok d) :
    ∃ stack' latest', Takes stack latest delim run stack' latest' ∧
      readAfter stack' latest' rest = .ok d := by
  cases delim with
  | opening =>
    cases latest with
    | closed _ => simp [readAfter] at h
    | name head =>
      simp only [readAfter] at h
      split at h
      · cases h
      rename_i hdepth
      split at h
      · cases h
      rename_i name hname
      exact ⟨_, _, .opening hdepth hname, h⟩
  | comma =>
    cases stack with
    | nil => simp [readAfter] at h
    | cons frame outer =>
      simp only [readAfter] at h
      split at h
      · cases h
      rename_i name hname
      exact ⟨_, _, .comma hname, h⟩
  | closing =>
    cases stack with
    | nil => simp [readAfter] at h
    | cons frame outer =>
      simp only [readAfter] at h
      split at h
      · rename_i hblank
        exact ⟨_, _, .closing hblank, h⟩
      · cases h

/-- What is open is admitted, and the last item may stand inside it. -/
structure Sound (stack : OpenHeads) (latest : Latest) : Prop where
  admitted : Admitted stack
  fits : FitsIn latest.descriptor stack.length

/-- The compact text of what was read so far. -/
def readText (stack : OpenHeads) (latest : Latest) : List Char :=
  openText stack ++ latest.descriptor.compact

section
variable {stack stack' : OpenHeads} {latest latest' : Latest} {delim : Delimiter}
  {run : List Char}

/-- A step keeps what is open admitted. -/
theorem Takes.sound (h : Takes stack latest delim run stack' latest')
    (hrun : ∀ c ∈ run, Delimiter.ofChar? c = none) (hs : Sound stack latest) :
    Sound stack' latest' := by
  obtain ⟨hstack, hlatest⟩ := hs
  have hdepth := hlatest.nesting
  cases h with
  | opening hne hname =>
    obtain ⟨-, hisName⟩ := isName_of_nameOf hrun hname
    refine ⟨⟨hlatest.named, List.forall_mem_nil _, hstack⟩, fitsIn_token hisName ?_⟩
    rw [List.length_cons]
    omega
  | comma hname =>
    obtain ⟨-, hisName⟩ := isName_of_nameOf hrun hname
    obtain ⟨hhead, hargs, houter⟩ := hstack
    refine ⟨⟨hhead, List.forall_mem_cons.mpr ⟨hlatest, hargs⟩, houter⟩, fitsIn_token hisName ?_⟩
    rw [List.length_cons] at hdepth ⊢
    omega
  | closing hblank =>
    obtain ⟨hhead, hargs, houter⟩ := hstack
    refine ⟨houter, fitsIn_applied hhead (by simp) fun a ha => ?_⟩
    rcases List.mem_cons.mp (List.mem_reverse.mp ha) with rfl | ha
    · exact hlatest
    · exact hargs a ha

/-- A step adds the delimiter and the squeezed run to the text read so far. -/
theorem Takes.text (h : Takes stack latest delim run stack' latest')
    (hrun : ∀ c ∈ run, Delimiter.ofChar? c = none) :
    readText stack' latest' = readText stack latest ++ delim.char :: squeeze run := by
  cases h with
  | opening hne hname =>
    obtain ⟨htext, -⟩ := isName_of_nameOf hrun hname
    rw [readText, openText_head, ← htext]
    simp [readText, Latest.descriptor, compact, Delimiter.char]
  | comma hname =>
    obtain ⟨htext, -⟩ := isName_of_nameOf hrun hname
    rw [readText, openText_argument, ← htext]
    simp [readText, Latest.descriptor, compact, Delimiter.char]
  | closing hblank =>
    have hempty : squeeze run = [] := (squeeze_eq_nil_iff run).mpr (List.all_eq_true.mp hblank)
    rw [readText, Latest.descriptor, ← openText_closed, hempty]
    simp [readText, Delimiter.char]

end

/-- What was read so far, with the rest of the text, is the compact text of the result. -/
theorem readAfter_sound {stack : OpenHeads} {latest : Latest}
    {rest : List (Delimiter × List Char)} {d : Descriptor} (hs : Sound stack latest)
    (hrest : ∀ s ∈ rest, ∀ c ∈ s.2, Delimiter.ofChar? c = none)
    (h : readAfter stack latest rest = .ok d) :
    FitsIn d 0 ∧ readText stack latest ++ joinedAfter (squeezeAfter rest) = d.compact := by
  induction rest generalizing stack latest with
  | nil =>
    cases stack with
    | cons _ _ => simp [readAfter] at h
    | nil =>
      simp only [readAfter, List.isEmpty_nil, if_true] at h
      cases h
      exact ⟨hs.fits, by simp [readText, openText, joinedAfter, squeezeAfter]⟩
  | cons s rest ih =>
    obtain ⟨delim, run⟩ := s
    obtain ⟨hrun, hafter⟩ := List.forall_mem_cons.mp hrest
    have hjoined : joinedAfter (squeezeAfter ((delim, run) :: rest)) =
        delim.char :: squeeze run ++ joinedAfter (squeezeAfter rest) := rfl
    obtain ⟨stack', latest', htakes, h⟩ := takes_of_readAfter h
    obtain ⟨hd, hcompact⟩ := ih (htakes.sound hrun hs) hafter h
    refine ⟨hd, ?_⟩
    rw [hjoined, ← List.append_assoc, ← htakes.text hrun, hcompact]

/-! ## What is well formed is read -/

/-- Reads an item at the front of a text, and what follows it. -/
def readItem (stack : OpenHeads) (cs : List Char) : Except Malformation Descriptor :=
  match nameOf (segments cs).1 with
  | .error e => .error e
  | .ok name => readAfter stack (.name name) (segments cs).2

theorem readItem_name {stack : OpenHeads} {name : String} {cs : List Char}
    (h : IsName name.toList) (hcs : (segments cs).1 = []) :
    readItem stack (name.toList ++ cs) = readAfter stack (.name name) (segments cs).2 := by
  unfold readItem
  rw [segments_append h.undelimited, hcs]
  simp only [List.append_nil, nameOf_of_isName h]

theorem readItem_head {stack : OpenHeads} {head : String} {cs : List Char}
    (h : IsName head.toList) (hdepth : stack.length < maxNesting) :
    readItem stack (head.toList ++ '<' :: cs) = readItem ((head, []) :: stack) cs := by
  show readItem stack (head.toList ++ Delimiter.opening.char :: cs) = _
  rw [readItem_name h (segments_char_nil .opening cs), segments_cons_char, readAfter]
  simp only [if_neg (Nat.ne_of_lt hdepth)]
  rfl

theorem readAfter_comma (outer : OpenHeads) (latest : Latest) (head : String)
    (args : List Descriptor) (cs : List Char) :
    readAfter ((head, args) :: outer) latest (segments (',' :: cs)).2 =
      readItem ((head, latest.descriptor :: args) :: outer) cs := rfl

theorem readAfter_closing {outer : OpenHeads} {latest : Latest} {head : String}
    {args : List Descriptor} {cs : List Char} (hcs : (segments cs).1 = []) :
    readAfter ((head, args) :: outer) latest (segments ('>' :: cs)).2 =
      readAfter outer (.closed (.applied head (latest.descriptor :: args).reverse))
        (segments cs).2 := by
  show readAfter _ _ (segments (Delimiter.closing.char :: cs)).2 = _
  rw [segments_cons_char, hcs, readAfter]
  simp only [List.all_nil, if_true]

mutual

/-- The compact text of a descriptor that fits is read to its end. -/
theorem readItem_compact : ∀ {d : Descriptor} {stack : OpenHeads} {cs : List Char},
    FitsIn d stack.length → (segments cs).1 = [] →
    ∃ latest : Latest, latest.descriptor = d ∧
      readItem stack (d.compact ++ cs) = readAfter stack latest (segments cs).2
  | .token t, stack, cs, h, hcs => ⟨.name t, rfl, readItem_name h.named hcs⟩
  | .applied head args, stack, cs, h, hcs => by
    obtain ⟨⟨hname, hne, hargs⟩, hdepth⟩ := h
    rw [nesting] at hdepth
    have hfit : ∀ a ∈ args, FitsIn a (stack.length + 1) := fun a ha => by
      have := nestingAll_le_iff.mp (Nat.le_refl (nestingAll args)) a ha
      exact ⟨allNamed_iff.mp hargs a ha, by omega⟩
    refine ⟨.closed (.applied head args), rfl, ?_⟩
    rw [compact, List.append_assoc, List.cons_append, List.append_assoc, List.singleton_append,
      readItem_head hname (by omega), readItem_compactAll hne hfit hcs, List.reverse_nil,
      List.nil_append]

/-- The compact texts of arguments, joined, are read up to the end of their application. -/
theorem readItem_compactAll : ∀ {args done : List Descriptor} {head : String}
    {stack : OpenHeads} {cs : List Char}, args ≠ [] →
    (∀ a ∈ args, FitsIn a (stack.length + 1)) → (segments cs).1 = [] →
    readItem ((head, done) :: stack) ([','].intercalate (compactAll args) ++ '>' :: cs) =
      readAfter stack (.closed (.applied head (done.reverse ++ args))) (segments cs).2
  | [a], done, head, stack, cs, _, h, hcs => by
    have hread : ∃ latest : Latest, latest.descriptor = a ∧
        readItem ((head, done) :: stack) (a.compact ++ '>' :: cs) =
          readAfter ((head, done) :: stack) latest (segments ('>' :: cs)).2 :=
      readItem_compact (h a (by simp)) rfl
    obtain ⟨latest, rfl, hread⟩ := hread
    rw [compactAll, compactAll, List.intercalate_singleton, hread, readAfter_closing hcs,
      List.reverse_cons]
  | a :: b :: args, done, head, stack, cs, _, h, hcs => by
    have hread : ∀ rest, readItem ((head, done) :: stack) (a.compact ++ ',' :: rest) =
        readItem ((head, a :: done) :: stack) rest := fun rest => by
      obtain ⟨latest, rfl, hread⟩ := @readItem_compact a ((head, done) :: stack) (',' :: rest)
        (h a (by simp)) rfl
      rw [hread, readAfter_comma]
    have ih := @readItem_compactAll (b :: args) (a :: done) head stack cs
      (by simp) (fun x hx => h x (List.mem_cons_of_mem a hx)) hcs
    rw [compactAll, compactAll, List.intercalate_cons_cons, ← compactAll, List.append_assoc,
      List.append_assoc, List.singleton_append, hread, ih, List.reverse_cons, List.append_assoc,
      List.singleton_append]

end

/-! ## Main results -/

/-- The texts that are read, and what they are read as. -/
theorem readChars_eq_ok_iff {cs : List Char} {d : Descriptor} :
    readChars cs = .ok d ↔ d.WellFormed ∧ squeezeRuns cs = d.compact := by
  constructor
  · intro h
    obtain ⟨hrun, hrest⟩ := undelimited_segments cs
    unfold readChars at h
    split at h
    · cases h
    · rename_i name hname
      obtain ⟨htext, hisName⟩ := isName_of_nameOf hrun hname
      have hstart : Sound [] (.name name) := ⟨trivial, fitsIn_token hisName (Nat.zero_le _)⟩
      obtain ⟨hd, hcompact⟩ := readAfter_sound hstart hrest h
      refine ⟨⟨hd.named, hd.nesting⟩, ?_⟩
      rw [← hcompact, squeezeRuns, ← htext]
      rfl
  · rintro ⟨hd, hcompact⟩
    have hread : ∃ latest : Latest, latest.descriptor = d ∧
        readItem [] (d.compact ++ []) = readAfter [] latest (segments []).2 :=
      readItem_compact ⟨hd.named, hd.nesting⟩ rfl
    obtain ⟨latest, rfl, hread⟩ := hread
    rw [List.append_nil] at hread
    rw [← readChars_squeezeRuns, hcompact]
    exact hread

/-- The text of a well-formed descriptor is read as that descriptor. -/
theorem parse_text {d : Descriptor} (h : d.WellFormed) : parse d.text = .ok d := by
  have hsqueezed : squeezeRuns (d.text.toList ++ []) = d.compact ++ squeezeRuns [] :=
    squeezeRuns_text h.named rfl
  rw [List.append_nil, show squeezeRuns [] = [] from rfl, List.append_nil] at hsqueezed
  unfold parse
  rw [readChars_eq_ok_iff.mpr ⟨h, hsqueezed⟩]

/-- The reader accepts the well-formed descriptors, each by the texts that are
its compact text up to blanks that do not matter. -/
theorem parse_eq_ok_iff (t : String) (d : Descriptor) :
    parse t = .ok d ↔ d.WellFormed ∧ squeezeRuns t.toList = d.compact := by
  rw [← readChars_eq_ok_iff]
  unfold parse
  split
  · rename_i e h
    simp [h]
  · rename_i d' h
    simp [h]

theorem wellFormed_of_parse {t : String} {d : Descriptor} (h : parse t = .ok d) :
    d.WellFormed := by
  unfold parse at h
  split at h
  · cases h
  · rename_i d' hread
    cases h
    exact (readChars_eq_ok_iff.mp hread).1

/-- Writing and reading are inverse exactly on the well-formed descriptors. What
was read from any text is one of them, so it is read back from its own text,
which is what it is stored as. -/
theorem parse_text_eq_ok_iff (d : Descriptor) :
    (parse d.text = .ok d ↔ d.WellFormed) ∧
      ∀ t : String, parse t = .ok d → d.WellFormed ∧ parse d.text = .ok d := by
  refine ⟨⟨wellFormed_of_parse, parse_text⟩, fun t h => ?_⟩
  have hd : d.WellFormed := wellFormed_of_parse h
  exact ⟨hd, parse_text hd⟩

/-- A text with blanks of several kinds, whose descriptor has another text. -/
theorem parse_text_eq_ok_iff_blanks :
    let d : Descriptor := .applied "map" [.token "unsigned int", .applied "vec" [.token "f64"]]
    parse "map<\tunsigned \u00a0int , vec <f64>\n>" = .ok d ∧
      d.text = "map<unsigned int, vec<f64>>" ∧ parse d.text = .ok d := by
  intro d
  have h : parse "map<\tunsigned \u00a0int , vec <f64>\n>" = .ok d := by rfl
  exact ⟨h, by decide, ((parse_text_eq_ok_iff d).2 _ h).2⟩

end WrapGen.Descriptor
