import WrapGen.Files.Tree
import WrapGen.Proofs.Files.Names
import WrapGen.Proofs.Results

/-!
# Where paths lead

Where a path leads depends on the directories that it passes and on nothing else.
So what happens to files leaves every path to where it led before. The place of a
file has the last name of its path, so that paths with different extensions lead to
different places.

* `SameDirectories.placeToWrite`: trees with the same directories lead a path to the same
  place.
* `placeToWrite_withExtension`: places have the extensions of their paths.
* `read_of_placeToWrite`: what is at the place of a path is read there.
-/
namespace WrapGen.FileTree

/-! ## Directories decide -/

/-- Two trees with the same directories and the same working directory. -/
structure SameDirectories (t t' : FileTree) : Prop where
  working : t'.working = t.working
  directories : ∀ place, t'.node? place = some .directory ↔ t.node? place = some .directory

section
variable {t t' : FileTree} {p : Path} {place : Place}

theorem requireDirectory_eq_ok_iff :
    t.requireDirectory place = .ok () ↔ t.node? place = some .directory := by
  unfold requireDirectory
  split <;> simp_all

theorem SameDirectories.step (h : SameDirectories t t') (place : Place) (name : String) :
    SameResult (t'.step place name) (t.step place name) := by
  refine SameResult.bind ?_ fun _ => SameResult.rfl
  intro _
  rw [requireDirectory_eq_ok_iff, requireDirectory_eq_ok_iff, h.directories]

theorem SameDirectories.walk (h : SameDirectories t t') : ∀ (names : List String) (place : Place),
    SameResult (t'.walk place names) (t.walk place names)
  | [], _ => SameResult.rfl
  | name :: names, place => by
    rw [FileTree.walk, FileTree.walk, List.foldlM_cons, List.foldlM_cons]
    exact (h.step place name).bind fun next => h.walk names next

theorem SameDirectories.placeToWrite (h : SameDirectories t t') (p : Path) :
    SameResult (t'.placeToWrite p) (t.placeToWrite p) := by
  unfold FileTree.placeToWrite
  rw [show t'.route p = t.route p by rw [route, route, h.working]]
  refine SameResult.rfl.bind fun r => ?_
  cases r.names.getLast? with
  | none => exact SameResult.rfl
  | some name =>
    refine (h.walk _ _).bind fun holder => ?_
    refine SameResult.bind (fun _ => ?_) fun _ => ?_
    · rw [requireDirectory_eq_ok_iff, requireDirectory_eq_ok_iff, h.directories]
    · dsimp only
      split
      · exact SameResult.rfl
      · refine (h.step holder name).bind fun place => ?_
        simp only [h.directories]
        exact SameResult.rfl

/-! ## Places -/

/-- What the path of a file to write passes. -/
theorem placeToWrite_eq_ok (h : t.placeToWrite p = .ok place) : ∃ r name holder,
    t.route p = .ok r ∧ r.names.getLast? = some name ∧
    t.walk r.start r.names.dropLast = .ok holder ∧ t.node? holder = some .directory ∧
    r.endsInSlash = false ∧ t.step holder name = .ok place ∧
    t.node? place ≠ some .directory := by
  obtain ⟨r, hr, h⟩ := bind_eq_ok h
  split at h
  · cases h
  · rename_i name hname
    obtain ⟨holder, hwalk, h⟩ := bind_eq_ok h
    obtain ⟨_, hholder, h⟩ := bind_eq_ok h
    split at h
    · cases h
    · rename_i hslash
      obtain ⟨next, hstep, h⟩ := bind_eq_ok h
      split at h
      · cases h
      · rename_i hdirectory
        cases h
        exact ⟨r, name, holder, hr, hname, hwalk, requireDirectory_eq_ok_iff.mp hholder,
          by simpa using hslash, hstep, hdirectory⟩

/-- The last name of a route is the last name of its path. -/
theorem getLast?_of_route {r : Route} (h : t.route p = .ok r) :
    r.names.getLast? = p.lastName?.map String.ofList := by
  unfold route at h
  split at h
  · cases h
  · split at h
    · cases h
    · split at h
      · cases h
      · cases h
        exact List.getLast?_map

/-- The place of a file has the extension of its path. -/
theorem placeToWrite_withExtension {ext : String} (hslash : '/' ∉ ext.toList)
    (hparent : ¬ '.' :: ext.toList <:+ ['.', '.'])
    (h : t.placeToWrite (p.withExtension ext) = .ok place) :
    ∃ name, place.getLast? = some name ∧ '.' :: ext.toList <:+ name.toList := by
  obtain ⟨r, name, holder, hr, hname, -, hholder, -, hstep, hdirectory⟩ := placeToWrite_eq_ok h
  rw [getLast?_of_route hr, Option.map_eq_some_iff] at hname
  obtain ⟨chars, hchars, rfl⟩ := hname
  obtain ⟨-, -, hstep⟩ := bind_eq_ok hstep
  split at hstep
  · -- a single dot leads to the directory itself
    cases hstep
    exact absurd hholder hdirectory
  · rename_i hdot
    have hsuffix : '.' :: ext.toList <:+ chars := by
      rcases Path.lastName_withExtension hslash hchars with rfl | hsuffix
      · exact absurd rfl hdot
      · exact hsuffix
    split at hstep
    · rename_i hdots
      have htwo : chars = ['.', '.'] := by simpa using congrArg String.toList hdots
      exact absurd (htwo ▸ hsuffix) hparent
    · split at hstep
      · cases hstep
      · cases hstep
        exact ⟨_, List.getLast?_concat, by simpa using hsuffix⟩

theorem walk_concat {start holder : Place} {names : List String} {name : String}
    (h : t.walk start names = .ok holder) :
    t.walk start (names ++ [name]) = t.step holder name := by
  rw [walk, List.foldlM_append, ← walk, h]
  exact bind_pure (t.step holder name)

/-- The file at the place that a path leads to is read at the path. -/
theorem read_of_placeToWrite (h : t.placeToWrite p = .ok place) {content : ByteArray}
    {t' : FileTree} (hd : SameDirectories t t') (hn : t'.node? place = some (.file content)) :
    t'.read p = .ok content := by
  obtain ⟨r, name, holder, hr, hname, hwalk, -, hslash, hstep, -⟩ :=
    placeToWrite_eq_ok ((hd.placeToWrite p place).mpr h)
  have hnames : r.names.dropLast ++ [name] = r.names := by
    obtain ⟨before, hbefore⟩ := List.getLast?_eq_some_iff.mp hname
    rw [hbefore, List.dropLast_concat]
  have hplace : t'.walk r.start r.names = .ok place := by
    rw [← hnames, walk_concat hwalk, hstep]
  rw [read, hr]
  show (t'.walk r.start r.names >>= _) = _
  rw [hplace]
  simp only [bind, Except.bind, hn, hslash]
  rfl

end

end WrapGen.FileTree
