import WrapGen.Proofs.Files.Joined
import WrapGen.Proofs.Files.Stored

/-!
# Names that a manifest states

A manifest may state names for the interface and the tests. Its own base is joined to the
directory that holds it, and so are these names. With another base, which counts from the
working directory, they stay as they stand, and so count from there as well.

* `Manifest.load_eq_ok`: the directory of a manifest is the parent of its path.
* `Command.stated_destinations`: what is not stated follows the base; what is stated leads to
  where it leads from the directory of the manifest, or from the working directory, and this
  is the same place if and only if the two are the same but for what the name climbs.
-/
namespace WrapGen

namespace Manifest

/-- The name that a manifest states for a unit. -/
def named (m : Manifest) : CodeUnit → Option String
  | .implementation => none
  | .interface => m.interface
  | .tests => m.tests

/-- A name that is stated gives the path of its unit, and other paths follow from the base. -/
theorem get_ofBase (m : Manifest) (base : Path) (toPath : String → Path) (u : CodeUnit) :
    (Destinations.ofBase base (m.interface.map toPath) (m.tests.map toPath)).get u =
      match m.named u with
      | none => (Destinations.ofBase base none none).get u
      | some name => (toPath name).withExtension (Destinations.extension u) := by
  cases u with
  | implementation => rfl
  | interface => cases h : m.interface <;> simp [named, h, Destinations.ofBase, PerUnit.get]
  | tests => cases h : m.tests <;> simp [named, h, Destinations.ofBase, PerUnit.get]

/-- A manifest is read from its path, whose parent is its directory. -/
theorem load_eq_ok {p : Path} {t : FileTree} {m : Manifest}
    (h : (runOn (load p) t).1 = .ok m) :
    (∃ content, t.read p = .ok content) ∧ m.directory = p.parent?.getD ⟨""⟩ := by
  obtain ⟨text, t', htext, h⟩ := runOn_bind_eq_ok h
  constructor
  · have hread : (runOn (readFile p) t).1 = .ok text := congrArg Prod.fst htext
    rw [readFile, runOn_adapt] at hread
    obtain ⟨content, _, hcontent, -⟩ := runOn_bind_eq_ok (mapError_eq_ok_iff.mp hread)
    exact ⟨content, congrArg Prod.fst hcontent⟩
  · split at h
    · cases h
      rfl
    · cases h

end Manifest

namespace Command

open StoresTree (tree)

variable {σ : Type} [FileSystem (StateM σ)] [StoresTree σ]

/-- A manifest that was loaded is in the tree, at its path. -/
theorem loadManifest_eq_ok {path : String} {o : GenerateOptions} {s : σ} {m : Manifest}
    (h : (runOn (loadManifest path o) s).1 = .ok m) :
    (∃ content, (tree s).read ⟨path⟩ = .ok content) ∧
      m.directory = (Path.mk path).parent?.getD ⟨""⟩ := by
  have hfollows : Follows (σ := σ) (loadManifest path o) (loadManifest path o) :=
    .of_reads (loadManifest_reads path o)
  have htree := congrArg Prod.fst ((hfollows s).2 m h)
  obtain ⟨loaded, t', hload, hm⟩ := runOn_bind_eq_ok htree
  have hloaded : (runOn (Manifest.load ⟨path⟩) (tree s)).1 = .ok loaded := by
    rw [runOn_adapt] at hload
    exact mapError_eq_ok_iff.mp (congrArg Prod.fst hload)
  obtain ⟨hcontent, hdirectory⟩ := Manifest.load_eq_ok hloaded
  refine ⟨hcontent, ?_⟩
  rw [← hdirectory, ← Except.ok.inj hm]
  split <;> rfl

/-- The directory of a manifest that was loaded is one that holds a file with its content. -/
theorem exists_directory {path : String} {o : GenerateOptions} {s : σ} {m : Manifest}
    (h : (runOn (loadManifest path o) s).1 = .ok m) : ∃ holder content,
      (tree s).locate m.directory = .ok holder ∧ (tree s).read ⟨path⟩ = .ok content ∧
      ((tree s).Closed → ∃ name, (tree s).node? (holder ++ [name]) = some (.file content)) := by
  obtain ⟨⟨content, hread⟩, hdirectory⟩ := loadManifest_eq_ok h
  obtain ⟨parent, holder, name, hparent, hlocate, place, hstep, hfile⟩ :=
    FileTree.exists_holder hread
  rw [hparent] at hdirectory
  refine ⟨holder, content, hdirectory ▸ hlocate, hread, fun hclosed => ⟨name, ?_⟩⟩
  rw [← hclosed.place_of_step hstep hfile]
  exact hfile

/-- Without another base every path counts from the directory of the manifest. With one, only
what the manifest does not state follows it; a name that is stated is taken as it stands. The
two paths that come of such a name lead to where it leads from the directory of the manifest,
and from the working directory. They agree if and only if the name is absolute, or leaves the
same of the two directories when it has climbed. -/
theorem stated_destinations (path : String) (o : GenerateOptions) (s : σ) {m : Manifest}
    (h : (runOn (loadManifest path o) s).1 = .ok m) :
    let t := tree s
    ∃ holder content, t.locate m.directory = .ok holder ∧ t.read ⟨path⟩ = .ok content ∧
      (t.Closed → ∃ name, t.node? (holder ++ [name]) = some (.file content)) ∧
      ∀ (base : String) (u : CodeUnit),
        let kept := (destinations m { o with base := none }).get u
        let moved := (destinations m { o with base := some base }).get u
        match m.named u with
        | none =>
          kept = (Destinations.ofBase (m.resolve m.output) none none).get u ∧
          moved = (Destinations.ofBase ⟨base⟩ none none).get u
        | some name =>
          let file := (Path.mk name).withExtension (Destinations.extension u)
          let joined := m.directory.join file
          kept = (m.resolve name).withExtension (Destinations.extension u) ∧ moved = file ∧
          (kept = joined ∨ ∀ place, t.placeToWrite kept ≠ .ok place) ∧
          (∀ place, t.placeToWrite joined = .ok place ↔
            joined.Fits ∧ (t.within holder).placeToWrite file = .ok place) ∧
          ∀ place place', t.placeToWrite kept = .ok place → t.placeToWrite moved = .ok place' →
            (place = place' ↔ file.isAbsolute = true ∨
              holder.rdrop (Place.climb file.names) =
                t.working.rdrop (Place.climb file.names)) := by
  intro t
  obtain ⟨holder, content, hlocate, hread, hholds⟩ := exists_directory h
  refine ⟨holder, content, hlocate, hread, hholds, fun base u => ?_⟩
  intro kept moved
  have hkept : kept = _ := m.get_ofBase (m.resolve m.output) m.resolve u
  have hmoved : moved = _ := m.get_ofBase ⟨base⟩ Path.mk u
  cases hnamed : m.named u with
  | none =>
    rw [hnamed] at hkept hmoved
    exact ⟨hkept, hmoved⟩
  | some name =>
    rw [hnamed] at hkept hmoved
    dsimp only at hkept hmoved ⊢
    set file := (Path.mk name).withExtension (Destinations.extension u)
    have hfile : file.chars ≠ [] := Path.chars_withExtension_ne_nil _ _
    have hjoined : ∀ place, t.placeToWrite (m.directory.join file) = .ok place ↔
        (m.directory.join file).Fits ∧ (t.within holder).placeToWrite file = .ok place :=
      fun _ => FileTree.placeToWrite_join hlocate hfile
    have hsame : kept = m.directory.join file ∨ ∀ place, t.placeToWrite kept ≠ .ok place := by
      rw [hkept]
      exact t.join_withExtension_or m.directory ⟨name⟩ (Destinations.extension u)
    refine ⟨hkept, hmoved, hsame, hjoined, fun place place' hplace hplace' => ?_⟩
    have heq : kept = m.directory.join file := hsame.resolve_right fun h => h place hplace
    rw [heq, hjoined] at hplace
    rw [hmoved] at hplace'
    exact FileTree.placeToWrite_within_eq_iff hplace.2 hplace'

/-- A manifest beside the working directory: the interface leads out of both to one place,
and the tests do not. -/
theorem stated_destinations_beside :
    let t : FileTree := ⟨[(["a"], .directory), (["b"], .directory), (["a", "m.json"],
      .file "\x7b\"interface\": \"../iface\", \"tests\": \"check\"\x7d".toUTF8)], ["b"]⟩
    let m : Manifest := { Manifest.empty with
      interface := some "../iface", tests := some "check", directory := ⟨"../a"⟩ }
    let kept := destinations m .none
    let moved := destinations m { GenerateOptions.none with base := some "out" }
    (runOn (loadManifest "../a/m.json" .none) t).1 = .ok m ∧ t.Closed ∧
      t.locate m.directory = .ok ["a"] ∧
      (∀ place place', t.placeToWrite kept.interface = .ok place →
        t.placeToWrite moved.interface = .ok place' → place = place') ∧
      t.placeToWrite kept.tests = .ok ["a", "check.py"] ∧
      t.placeToWrite moved.tests ≠ .ok ["a", "check.py"] := by
  intro t m kept moved
  have hload : (runOn (loadManifest "../a/m.json" .none) t).1 = .ok m := by decide +kernel
  have hlocate : t.locate m.directory = .ok ["a"] := by decide +kernel
  have hkept : t.placeToWrite kept.tests = .ok ["a", "check.py"] := by decide +kernel
  obtain ⟨holder, content, hholder, -, -, hunits⟩ := stated_destinations _ _ t hload
  cases hlocate.symm.trans hholder
  obtain ⟨-, -, -, -, hinterface⟩ := hunits "out" .interface
  obtain ⟨-, -, -, -, htests⟩ := hunits "out" .tests
  refine ⟨hload, by decide +kernel, hlocate, fun place place' hplace hplace' => ?_, hkept,
    fun hmoved => ?_⟩
  · exact (hinterface place place' hplace hplace').mpr (Or.inr (by decide +kernel))
  · have hsame := (htests _ _ hkept hmoved).mp rfl
    revert hsame
    decide +kernel

/-- A stated name does not lead to the same place with another base, when the manifest is not
in the working directory. -/
theorem not_stated_alike : ¬ ∀ (path base name : String) (t : FileTree) (m : Manifest)
    (u : CodeUnit), (runOn (loadManifest path .none) t).1 = .ok m → m.named u = some name →
      ∀ place, t.placeToWrite ((destinations m .none).get u) = .ok place →
        t.placeToWrite ((destinations m { GenerateOptions.none with base := some base }).get u) =
          .ok place := by
  intro h
  let t : FileTree := ⟨[(["sub"], .directory),
    (["sub", "m.json"], .file "\x7b\"interface\": \"iface\"\x7d".toUTF8)], []⟩
  let m : Manifest := { Manifest.empty with interface := some "iface", directory := ⟨"sub"⟩ }
  have hload : (runOn (loadManifest "sub/m.json" .none) t).1 = .ok m := by decide +kernel
  have hkept : t.placeToWrite (destinations m .none).interface = .ok ["sub", "iface.pxd"] := by
    decide +kernel
  have hmoved := h "sub/m.json" "out" "iface" t m .interface hload rfl _ hkept
  revert hmoved
  decide +kernel

end Command

end WrapGen
