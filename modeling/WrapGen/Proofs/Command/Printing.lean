import WrapGen.Proofs.Files.Stored

/-!
# Printing shows what is generated

The generation of files and the printing of a unit go the same way to the texts
of a manifest, in different monadic code. `Recording` runs either over any files
and keeps every call that writes, so that what would be written can be compared
with what is printed.

* `Command.printUnit_eq`: printing is preparation and the choice of a unit.
* `Command.print_shows_generated`: printing gives the text that generation writes,
  and the failure that keeps generation from writing.
-/
namespace WrapGen

/-! ## Writes recorded -/

/-- A state and the calls that have written on the way to it. -/
structure Recording (σ : Type) where
  state : σ
  /-- The path and the text of each call, first to last. -/
  writes : List (Path × String)

/-- A state before any call. -/
def Recording.start {σ : Type} (s : σ) : Recording σ := ⟨s, []⟩

variable {σ ε α : Type} [FileSystem (StateM σ)]

/-- A call that is refused is recorded too. -/
instance : FileSystem (StateM (Recording σ)) where
  read p := fun r =>
    let (result, s) := (FileSystem.read p : StateM σ _).run r.state
    (result, ⟨s, r.writes⟩)
  write p text := fun r =>
    let (result, s) := (FileSystem.write p text : StateM σ _).run r.state
    (result, ⟨s, r.writes ++ [(p, text)]⟩)

/-- What only reads records no write. -/
theorem Reads.writes_eq {m : Type → Type} [Monad m] [FileSystem m]
    {x : ExceptT ε (StateM (Recording σ)) α} {y : ExceptT ε m α} (h : Reads x y) :
    ∀ r, (runOn x r).2.writes = r.writes := by
  induction h with
  | result result => exact fun _ => rfl
  | read p => exact fun _ => rfl
  | @bind ε α β x y f g _ _ hx hf =>
    intro r
    rcases hrun : runOn x r with ⟨e | a, r'⟩
    · rw [runOn_bind_error hrun, ← hx r, hrun]
    · rw [runOn_bind_ok hrun, hf a r', ← hx r, hrun]
  | adapt _ f hx => exact hx

namespace Destinations

variable (d : Destinations) (texts : PerUnit String)

/-- A unit as a call that writes it. -/
def entry (u : CodeUnit) : Path × String := (d.get u, texts.get u)

/-- The calls that write a list of units are recorded: all of them if the texts
could be written, and else at least the one that failed. -/
theorem forM_writes : ∀ (todo : List CodeUnit) (r : Recording σ),
    ∃ done result r', runOn (todo.forM (d.writeUnit texts)) r = (result, r') ∧
      r'.writes = r.writes ++ done.map (d.entry texts) ∧
      (result = .ok () ∧ done = todo ∨ result ≠ .ok () ∧ done ≠ [])
  | [], r => ⟨[], .ok (), r, rfl, by simp, Or.inl ⟨rfl, rfl⟩⟩
  | u :: todo, r => by
    have hcons : ((u :: todo).forM (d.writeUnit texts) :
        ExceptT WriteError (StateM (Recording σ)) Unit) =
        d.writeUnit texts u >>= fun _ => todo.forM (d.writeUnit texts) := rfl
    rw [hcons]
    have hwrites : (runOn (d.writeUnit texts u) r).2.writes = r.writes ++ [d.entry texts u] := rfl
    rcases hrun : runOn (d.writeUnit texts u) r with ⟨e | ⟨⟩, r₁⟩
    · rw [hrun] at hwrites
      refine ⟨[u], _, r₁, runOn_bind_error hrun, hwrites, Or.inr ⟨nofun, by simp⟩⟩
    · rw [hrun] at hwrites
      obtain ⟨done, result, r', hrest, hrecord, hend⟩ := forM_writes todo r₁
      refine ⟨u :: done, result, r', ?_, ?_, ?_⟩
      · rw [runOn_bind_ok hrun, hrest]
      · rw [hrecord, hwrites]
        simp
      · rcases hend with ⟨hok, rfl⟩ | ⟨herror, -⟩
        · exact Or.inl ⟨hok, rfl⟩
        · exact Or.inr ⟨herror, by simp⟩

end Destinations

/-! ## The two commands -/

theorem Batch.generateUnit_eq (b : Batch) (requests : List RequestText) (u : CodeUnit) :
    b.generateUnit requests u = (b.generate requests).map (·.get u) := by
  unfold generateUnit generate
  cases b.bundles requests with
  | error e => rfl
  | ok bundles => exact congrArg Except.ok (PerUnit.get_ofFn _ u).symm

theorem map_result {m : Type → Type} [Monad m] [LawfulMonad m] {ε α β : Type} (f : α → β)
    (r : Except ε α) :
    (f <$> ExceptT.mk (pure r) : ExceptT ε m β) = ExceptT.mk (pure (r.map f)) := by
  apply ExceptT.ext
  rw [ExceptT.run_map, ExceptT.run_mk, ExceptT.run_mk, map_pure]

namespace Command

section
variable {m : Type → Type} [Monad m] [FileSystem m] [LawfulMonad m]

theorem unitText_eq (manifest : Manifest) (u : CodeUnit) :
    (manifest.unitText u : ExceptT CommandError m String) = (·.get u) <$> manifest.texts := by
  unfold Manifest.unitText Manifest.texts
  rw [map_bind]
  congr
  funext batch
  rw [Batch.generateUnit_eq, map_result]
  cases batch.generate manifest.requests <;> rfl

/-- Printing a unit is preparing all of them and choosing one. -/
theorem printUnit_eq (path : String) (u : CodeUnit) :
    (printUnit path u : ExceptT CommandError m String) =
      (fun prepared => prepared.2.get u) <$> prepare path .none := by
  unfold printUnit prepare
  rw [map_bind]
  congr
  funext manifest
  rw [unitText_eq, map_bind]
  simp

end

/-! ## Runs -/

section
variable {σ α β : Type} {s s' : σ}

theorem runOn_map (f : α → β) (x : ExceptT ε (StateM σ) α) (s : σ) :
    runOn (f <$> x) s = ((runOn x s).1.map f, (runOn x s).2) := by
  rw [map_eq_pure_bind]
  rcases hx : runOn x s with ⟨e | a, s'⟩
  · rw [runOn_bind_error hx]
    rfl
  · rw [runOn_bind_ok hx]
    rfl

/-- The outcome of a command that has a text or fails. -/
def outcomeOf : Except CommandError String → Outcome
  | .ok output => .success output
  | .error e => .error e.message

theorem run_conclude (x : ExceptT CommandError (StateM σ) String) (s : σ) :
    (conclude x : StateM σ Outcome).run s = (outcomeOf (runOn x s).1, (runOn x s).2) := by
  show (match (runOn x s).1 with
    | .ok output => (pure (.success output) : StateM σ Outcome)
    | .error e => pure (.error e.message)) (runOn x s).2 = _
  rcases runOn x s with ⟨e | output, s'⟩
  · rfl
  · rfl

end

section
variable (path : String)

/-- The outcome of the command of arguments that starts in a state, and what it
has written. -/
def record (arguments : List String) (s : σ) : Outcome × Recording σ :=
  (runArguments arguments : StateM (Recording σ) Outcome).run (.start s)

theorem record_gen (s : σ) : record ["gen", path] s =
    (outcomeOf ((runOn (generateFiles path .none) (Recording.start s)).1.map writtenText),
      (runOn (generateFiles path .none) (Recording.start s)).2) := by
  show (conclude (writtenText <$> generateFiles path .none) :
    StateM (Recording σ) Outcome).run (.start s) = _
  rw [run_conclude, runOn_map]

theorem record_print (s : σ) (u : CodeUnit) : record ["print", path, u.name] s =
    (outcomeOf ((runOn (prepare path .none) (Recording.start s)).1.map (·.2.get u)),
      (runOn (prepare path .none) (Recording.start s)).2) := by
  have harguments : ofArguments ["print", path, u.name] = .ok (.print path u) := by
    cases u <;> rfl
  rw [record, runArguments, harguments]
  show (conclude (printUnit path u) : StateM (Recording σ) Outcome).run (.start s) = _
  rw [run_conclude, printUnit_eq, runOn_map]

theorem prepare_writes (o : GenerateOptions) (r : Recording σ) :
    (runOn (prepare path o) r).2.writes = r.writes := by
  have hreads : Reads (prepare path o : ExceptT CommandError (StateM (Recording σ)) _)
      (prepare path o : ExceptT CommandError (StateM (Recording σ)) _) := prepare_reads path o
  exact hreads.writes_eq r

variable {path}

/-- Generation that has come to its texts writes: all three if it ends well, and
at least tries to write one if it fails. -/
theorem generateFiles_writes {o : GenerateOptions} {manifest : Manifest} {texts : PerUnit String}
    {r r' : Recording σ} (h : runOn (prepare path o) r = (.ok (manifest, texts), r')) :
    match runOn (generateFiles path o) r with
    | (.ok places, r'') => r''.writes = r.writes ++ CodeUnit.all.map (places.entry texts)
    | (.error _, r'') => r''.writes ≠ r.writes := by
  have hsilent : r'.writes = r.writes := by
    rw [← prepare_writes path o r, h]
  let places := destinations manifest o
  obtain ⟨done, result, r'', hrun, hwrites, hend⟩ := places.forM_writes texts CodeUnit.all r'
  rw [hsilent] at hwrites
  have hwrite : runOn ((places.write texts).adapt CommandError.write) r' =
      (result.mapError .write, r'') := by
    rw [runOn_adapt, show runOn (places.write texts) r' = (result, r'') from hrun]
  rw [generateFiles_eq, runOn_bind_ok h]
  dsimp only
  cases result with
  | ok =>
    have hdone : done = CodeUnit.all := by simpa using hend
    rw [runOn_bind_ok hwrite, ← hdone]
    exact hwrites
  | error e =>
    have hdone : done ≠ [] := by simpa using hend
    rw [runOn_bind_error hwrite]
    show r''.writes ≠ r.writes
    simpa [hwrites] using hdone

end

/-- Whatever the files are: if generation without options ends well, it has
written one text for each unit, in order, and printing a unit gives its text and
ends well. If generation fails before it writes, printing any unit fails in the
same way and prints nothing. Printing never writes. -/
theorem print_shows_generated (path : String) (s : σ) :
    ((record ["gen", path] s).1.status = 0 → ∃ (places : Destinations) (texts : PerUnit String),
      (record ["gen", path] s).2.writes =
        CodeUnit.all.map (fun u => (places.get u, texts.get u)) ∧
      ∀ u : CodeUnit, (record ["print", path, u.name] s).1 = .success (texts.get u)) ∧
    ((record ["gen", path] s).1.status ≠ 0 → (record ["gen", path] s).2.writes = [] →
      (record ["gen", path] s).1.status = 1 ∧ (record ["gen", path] s).1.output = "" ∧
      ∀ u : CodeUnit, (record ["print", path, u.name] s).1 = (record ["gen", path] s).1) ∧
    ∀ u : CodeUnit, (record ["print", path, u.name] s).2.writes = [] := by
  have hgen := record_gen path s
  have hprint := record_print path s
  have hquiet : ∀ u : CodeUnit, (record ["print", path, u.name] s).2.writes = [] := by
    intro u
    rw [hprint]
    exact prepare_writes path .none (.start s)
  rcases hprepared : runOn (prepare path .none) (Recording.start s) with
    ⟨e | ⟨manifest, texts⟩, r⟩
  · -- both commands end here
    have hfail : runOn (generateFiles path .none) (Recording.start s) = (.error e, r) := by
      rw [generateFiles_eq, runOn_bind_error hprepared]
    rw [hfail] at hgen
    rw [hgen]
    refine ⟨nofun, fun _ _ => ⟨rfl, rfl, fun u => ?_⟩, hquiet⟩
    rw [hprint, hprepared]
    rfl
  · have hwrites := generateFiles_writes hprepared
    rcases hrun : runOn (generateFiles path .none) (Recording.start s) with ⟨e | places, r'⟩
    · rw [hrun] at hgen hwrites
      rw [hgen]
      exact ⟨nofun, fun _ hnone => absurd hnone hwrites, hquiet⟩
    · rw [hrun] at hgen hwrites
      rw [hgen]
      refine ⟨fun _ => ⟨places, texts, hwrites, fun u => ?_⟩, fun h => absurd rfl h, hquiet⟩
      rw [hprint, hprepared]
      rfl

/-- A manifest without requests is generated and printed. Without the manifest
both commands fail, and nothing is written. -/
theorem print_shows_generated_tree :
    let tree : FileTree := ⟨[(["m.json"], .file "{}".toUTF8)], []⟩
    let bare : FileTree := ⟨[], []⟩
    (∃ (places : Destinations) (texts : PerUnit String),
      (record ["gen", "m.json"] tree).2.writes =
        CodeUnit.all.map (fun u => (places.get u, texts.get u)) ∧
      ∀ u : CodeUnit, (record ["print", "m.json", u.name] tree).1 = .success (texts.get u)) ∧
    ∀ u : CodeUnit, (record ["print", "m.json", u.name] bare).1 =
      (record ["gen", "m.json"] bare).1 := by
  intro tree bare
  refine ⟨(print_shows_generated "m.json" tree).1 ?_, ?_⟩
  · decide +kernel
  · refine ((print_shows_generated "m.json" bare).2.1 ?_ ?_).2.2
    · decide +kernel
    · decide +kernel

end Command

end WrapGen
