import WrapGen.Command.Run
import WrapGen.Files.Tree
import WrapGen.Proofs.Results

/-!
# File systems that store a tree

A file system stores a file tree if each of its calls fails as a whole or does
what it does to the tree (`StoresTree`). Why a call fails is left open, so that
this holds of a tree itself and of a tree whose calls may be refused at any time
(`RefusingTree`).

All that generation does before it writes is reading (`Reads`). It leaves the
tree as it is, and if it comes to an end, it is the one that the tree itself leads
to (`Follows`).

* `prepare_reads`, `prepare_follows`: so it is with the preparation of a batch.
-/
namespace WrapGen

/-- A state that stores a file tree. -/
class StoresTree (σ : Type) [FileSystem (StateM σ)] where
  tree : σ → FileTree
  /-- A read leaves the tree as it is. -/
  read_keeps (p : Path) (s : σ) : tree (((FileSystem.read p : StateM σ _).run s).2) = tree s
  /-- What is read is what the tree holds. -/
  read_ok (p : Path) (s : σ) (bytes : ByteArray)
    (h : ((FileSystem.read p : StateM σ _).run s).1 = .ok bytes) : (tree s).read p = .ok bytes
  /-- A write that fails leaves the tree as it is. -/
  write_error (p : Path) (text : String) (s : σ) (e : FileError)
    (h : ((FileSystem.write p text : StateM σ _).run s).1 = .error e) :
    tree (((FileSystem.write p text : StateM σ _).run s).2) = tree s
  /-- A write that does not fail is one into the tree. -/
  write_ok (p : Path) (text : String) (s : σ)
    (h : ((FileSystem.write p text : StateM σ _).run s).1 = .ok ()) :
    (tree s).write p text = .ok (tree (((FileSystem.write p text : StateM σ _).run s).2))

/-! ## Trees -/

theorem FileTree.run_write (t : FileTree) (p : Path) (text : String) :
    (FileSystem.write p text : StateM FileTree _).run t =
      match t.write p text with
      | .ok t' => (.ok (), t')
      | .error e => (.error e, t) := by
  show (match t.write p text with
    | .ok t' => _
    | .error e => _ : StateM FileTree _).run t = _
  split <;> rfl

instance : StoresTree FileTree where
  tree := id
  read_keeps _ _ := rfl
  read_ok _ _ _ h := h
  write_error p text t e h := by
    rw [FileTree.run_write] at h ⊢
    split at h
    · cases h
    · rfl
  write_ok p text t h := by
    rw [FileTree.run_write] at h ⊢
    split at h
    · rename_i t' ht
      rw [id, ht]
      rfl
    · cases h

/-- A file tree whose calls may be refused, and the refusals to come. -/
structure RefusingTree where
  tree : FileTree
  /-- Of each call the error of its refusal, if it is refused; no more after the last. -/
  refusals : List (Option FileError)

namespace RefusingTree

/-- A call by call refused or done. -/
def call {α : Type} (act : FileTree → Except FileError (α × FileTree)) :
    StateM RefusingTree (Except FileError α) := fun s =>
  match s.refusals.head?.join, act s.tree with
  | some e, _ => (.error e, { s with refusals := s.refusals.tail })
  | none, .error e => (.error e, { s with refusals := s.refusals.tail })
  | none, .ok (a, t) => (.ok a, ⟨t, s.refusals.tail⟩)

instance : FileSystem (StateM RefusingTree) where
  read p := call fun t => do return (← t.read p, t)
  write p text := call fun t => do return ((), ← t.write p text)

theorem call_cases {α : Type} (act : FileTree → Except FileError (α × FileTree))
    (s : RefusingTree) :
    (∃ e, ((call act).run s).1 = .error e ∧ ((call act).run s).2.tree = s.tree) ∨
    ∃ a t, act s.tree = .ok (a, t) ∧ ((call act).run s).1 = .ok a ∧
      ((call act).run s).2.tree = t := by
  show (∃ e, (call act s).1 = .error e ∧ (call act s).2.tree = s.tree) ∨
    ∃ a t, act s.tree = .ok (a, t) ∧ (call act s).1 = .ok a ∧ (call act s).2.tree = t
  unfold call
  split
  · exact Or.inl ⟨_, rfl, rfl⟩
  · exact Or.inl ⟨_, rfl, rfl⟩
  · rename_i h
    exact Or.inr ⟨_, _, h, rfl, rfl⟩

instance : StoresTree RefusingTree where
  tree := RefusingTree.tree
  read_keeps p s := by
    rcases call_cases (fun t => do return (← t.read p, t)) s with ⟨e, -, h⟩ | ⟨bytes, t, ha, -, h⟩
    · exact h
    · obtain ⟨bytes, -, ha⟩ := bind_eq_ok ha
      cases ha
      exact h
  read_ok p s bytes h := by
    rcases call_cases (fun t => do return (← t.read p, t)) s with
      ⟨e, he, -⟩ | ⟨bytes', t, ha, hok, -⟩
    · cases he.symm.trans h
    · cases hok.symm.trans h
      obtain ⟨bytes, hread, ha⟩ := bind_eq_ok ha
      cases ha
      exact hread
  write_error p text s e h := by
    rcases call_cases (fun t => do return ((), ← t.write p text)) s with
      ⟨e, -, ht⟩ | ⟨_, t, -, hok, -⟩
    · exact ht
    · cases hok.symm.trans h
  write_ok p text s h := by
    rcases call_cases (fun t => do return ((), ← t.write p text)) s with
      ⟨e, he, -⟩ | ⟨_, t, ha, -, ht⟩
    · cases he.symm.trans h
    · obtain ⟨t', hwrite, ha⟩ := bind_eq_ok ha
      cases ha
      rw [hwrite]
      exact congrArg _ ht.symm

end RefusingTree

/-! ## Steps over a state -/

section
variable {σ ε ε' α β : Type}

/-- The result of a computation on a state, and the state after it. -/
def runOn (x : ExceptT ε (StateM σ) α) (s : σ) : Except ε α × σ := x.run.run s

variable {s s' : σ} {x : ExceptT ε (StateM σ) α}

theorem runOn_bind_ok {f : α → ExceptT ε (StateM σ) β} {a : α} (h : runOn x s = (.ok a, s')) :
    runOn (x >>= f) s = runOn (f a) s' := by
  unfold runOn at h ⊢
  rw [ExceptT.run_bind, StateT.run_bind, h]
  rfl

theorem runOn_bind_error {f : α → ExceptT ε (StateM σ) β} {e : ε}
    (h : runOn x s = (.error e, s')) : runOn (x >>= f) s = (.error e, s') := by
  unfold runOn at h ⊢
  rw [ExceptT.run_bind, StateT.run_bind, h]
  rfl

/-- What has a result has one after the first step. -/
theorem runOn_bind_eq_ok {f : α → ExceptT ε (StateM σ) β} {b : β}
    (h : (runOn (x >>= f) s).1 = .ok b) :
    ∃ a s', runOn x s = (.ok a, s') ∧ (runOn (f a) s').1 = .ok b := by
  rcases hx : runOn x s with ⟨e | a, s'⟩
  · rw [runOn_bind_error hx] at h
    cases h
  · rw [runOn_bind_ok hx] at h
    exact ⟨a, s', rfl, h⟩

theorem runOn_adapt (f : ε → ε') (x : ExceptT ε (StateM σ) α) (s : σ) :
    runOn (x.adapt f) s = ((runOn x s).1.mapError f, (runOn x s).2) :=
  rfl

end

/-! ## Computations that only read -/

/-- Two computations, each over its own files, take the same steps, and none of
the steps writes. -/
inductive Reads {m n : Type → Type} [Monad m] [Monad n] [FileSystem m] [FileSystem n] :
    {ε α : Type} → ExceptT ε m α → ExceptT ε n α → Prop
  | result {ε α : Type} (r : Except ε α) : Reads (ExceptT.mk (pure r)) (ExceptT.mk (pure r))
  | read (p : Path) :
      Reads (ExceptT.mk (FileSystem.read p) : ExceptT FileError m ByteArray)
        (ExceptT.mk (FileSystem.read p))
  | bind {ε α β : Type} {x : ExceptT ε m α} {y : ExceptT ε n α} {f : α → ExceptT ε m β}
      {g : α → ExceptT ε n β} (h : Reads x y) (hfg : ∀ a, Reads (f a) (g a)) :
      Reads (x >>= f) (y >>= g)
  | adapt {ε ε' α : Type} {x : ExceptT ε m α} {y : ExceptT ε n α} (h : Reads x y) (f : ε → ε') :
      Reads (x.adapt f) (y.adapt f)

section
variable {σ ε ε' α β : Type} [FileSystem (StateM σ)] [StoresTree σ]

/-- A computation leaves the tree as it is, and has only the result that another
one has on the tree. -/
def Follows (x : ExceptT ε (StateM σ) α) (y : ExceptT ε (StateM FileTree) α) : Prop :=
  ∀ s, StoresTree.tree (runOn x s).2 = StoresTree.tree s ∧
    ∀ a, (runOn x s).1 = .ok a → runOn y (StoresTree.tree s) = (.ok a, StoresTree.tree s)

namespace Follows

variable {x : ExceptT ε (StateM σ) α} {y : ExceptT ε (StateM FileTree) α}

/-- A result that takes no step. -/
theorem of_result (r : Except ε α) :
    Follows (ExceptT.mk (pure r) : ExceptT ε (StateM σ) α) (ExceptT.mk (pure r)) := by
  refine fun s => ⟨rfl, fun a h => ?_⟩
  cases (show r = .ok a from h)
  rfl

theorem bind (h : Follows x y) {f : α → ExceptT ε (StateM σ) β}
    {g : α → ExceptT ε (StateM FileTree) β} (hfg : ∀ a, Follows (f a) (g a)) :
    Follows (x >>= f) (y >>= g) := by
  intro s
  obtain ⟨hkeep, hsame⟩ := h s
  rcases hx : runOn x s with ⟨e | a, s'⟩
  · rw [runOn_bind_error hx]
    rw [hx] at hkeep
    exact ⟨hkeep, nofun⟩
  · rw [runOn_bind_ok hx, runOn_bind_ok (hsame a (by rw [hx]))]
    rw [hx] at hkeep
    rw [← show StoresTree.tree s' = StoresTree.tree s from hkeep]
    exact hfg a s'

theorem adapt (h : Follows x y) (f : ε → ε') : Follows (x.adapt f) (y.adapt f) := by
  intro s
  obtain ⟨hkeep, hsame⟩ := h s
  refine ⟨hkeep, fun a ha => ?_⟩
  rw [runOn_adapt, hsame a (mapError_eq_ok_iff.mp ha)]
  rfl

/-- A read that does not fail gives what the tree holds. -/
theorem read (p : Path) :
    Follows (ExceptT.mk (FileSystem.read p) : ExceptT FileError (StateM σ) ByteArray)
      (ExceptT.mk (FileSystem.read p)) := by
  refine fun s => ⟨StoresTree.read_keeps p s, fun bytes h => ?_⟩
  exact Prod.ext (StoresTree.read_ok p s bytes h) rfl

/-- What only reads follows what it does on the tree. -/
theorem of_reads (h : Reads x y) : Follows x y := by
  induction h with
  | result r => exact of_result r
  | read p => exact read p
  | bind _ _ hx hfg => exact hx.bind hfg
  | adapt _ f hx => exact hx.adapt f

end Follows

end

/-! ## Preparation -/

section
variable {m n : Type → Type} [Monad m] [Monad n] [FileSystem m] [FileSystem n]

theorem readFile_reads (p : Path) :
    Reads (m := m) (n := n) (Manifest.readFile p) (Manifest.readFile p) := by
  refine Reads.adapt ((Reads.read p).bind fun bytes => ?_) _
  split
  · exact .result _
  · exact .result _

theorem load_reads (p : Path) :
    Reads (m := m) (n := n) (Manifest.load p) (Manifest.load p) := by
  refine (readFile_reads p).bind fun text => ?_
  split
  · exact .result _
  · exact .result _

theorem readHeader_reads (manifest : Manifest) (u : CodeUnit) :
    Reads (m := m) (n := n) (manifest.readHeader u) (manifest.readHeader u) := by
  unfold Manifest.readHeader
  split
  · exact .result _
  · exact (readFile_reads _).bind fun _ => .result _

theorem texts_reads (manifest : Manifest) :
    Reads (m := m) (n := n) manifest.texts manifest.texts := by
  have hheaders : Reads (m := m) (n := n) manifest.readHeaders manifest.readHeaders :=
    (readHeader_reads manifest _).bind fun _ => (readHeader_reads manifest _).bind fun _ =>
      (readHeader_reads manifest _).bind fun _ => .result _
  exact ((hheaders.adapt _).bind fun _ => .result _).bind fun _ => .result _

end

namespace Command

variable {m : Type → Type} [Monad m] [FileSystem m]

/-- What generation does before it writes: it loads a manifest and makes the texts. -/
def prepare (path : String) (o : GenerateOptions) :
    ExceptT CommandError m (Manifest × PerUnit String) := do
  let manifest ← loadManifest path o
  let texts ← manifest.texts
  return (manifest, texts)

theorem generateFiles_eq [LawfulMonad m] (path : String) (o : GenerateOptions) :
    (generateFiles path o : ExceptT CommandError m Destinations) = do
      let (manifest, texts) ← prepare path o
      let places := destinations manifest o
      (places.write texts).adapt .write
      return places := by
  simp only [generateFiles, prepare, bind_assoc, pure_bind]

theorem loadManifest_reads {n : Type → Type} [Monad n] [FileSystem n] (path : String)
    (o : GenerateOptions) : Reads (m := m) (n := n) (loadManifest path o) (loadManifest path o) :=
  ((load_reads _).adapt _).bind fun _ => .result _

/-- Preparation only reads, whatever the files are kept in. -/
theorem prepare_reads {n : Type → Type} [Monad n] [FileSystem n] (path : String)
    (o : GenerateOptions) : Reads (m := m) (n := n) (prepare path o) (prepare path o) :=
  (loadManifest_reads path o).bind fun manifest =>
    (texts_reads manifest).bind fun _ => .result _

theorem prepare_follows {σ : Type} [FileSystem (StateM σ)] [StoresTree σ] (path : String)
    (o : GenerateOptions) : Follows (σ := σ) (prepare path o) (prepare path o) :=
  .of_reads (prepare_reads path o)

end Command

end WrapGen
