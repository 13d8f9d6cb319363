import WrapGen.Proofs.Files.Tree
import Mathlib.Data.List.DropRight

/-!
# Walks from different places

A relative path is walked from the working directory, name by name. What is written is at
the place that all of its names lead to. If a walk gets anywhere, where it gets depends on
its names and the place that it starts from: parents go up, other names go down, and what
is left of the start is what the parents do not reach.

* `FileTree.placeToWrite_eq_ok_iff`: where the path of a file to write leads.
* `FileTree.walk_append`: a walk goes on from where its first part leads.
* `Place.follow_eq_iff`: the same names lead two places to one if what the names leave of
  the two is the same.
-/
namespace WrapGen

namespace Path

/-- The fields that are not empty, as names. -/
def namesOf (fields : List (List Char)) : List String :=
  (fields.filter fun name => !name.isEmpty).map String.ofList

@[simp] theorem namesOf_append (fields more : List (List Char)) :
    namesOf (fields ++ more) = namesOf fields ++ namesOf more := by
  simp [namesOf]

theorem namesOf_singleton {name : List Char} (h : name ≠ []) :
    namesOf [name] = [String.ofList name] := by
  simp [namesOf, h]

/-- The names that a path is walked by. -/
def names (p : Path) : List String := namesOf (Text.fields '/' p.chars)

/-- Whether a path ends in a slash, and so means a directory. -/
def endsInSlash (p : Path) : Bool := p.chars.getLast? == some '/'

/-- A path that a system takes. -/
structure Fits (p : Path) : Prop where
  noNul : '\x00' ∉ p.chars
  notEmpty : p.text ≠ ""
  short : p.text.utf8ByteSize ≤ FileTree.maxPathBytes

theorem Fits.chars_ne_nil {p : Path} (h : p.Fits) : p.chars ≠ [] :=
  mt String.toList_eq_nil_iff.mp h.notEmpty

end Path

/-! ## Places without a tree -/

namespace Place

/-- The place that a name leads to from a directory, whatever is there. -/
def next (place : Place) (name : String) : Place :=
  if name = "." then place else if name = ".." then place.dropLast else place ++ [name]

/-- The place that names lead to. -/
def follow (start : Place) (names : List String) : Place := names.foldl next start

/-- How many levels above its start a walk by names gets. -/
def climb : List String → Nat
  | [] => 0
  | name :: names =>
    if name = "." then climb names else if name = ".." then climb names + 1 else climb names - 1

/-- Single dots lead nowhere else. -/
theorem follow_of_dots (start : Place) : ∀ {names : List String}, (∀ name ∈ names, name = ".") →
    start.follow names = start
  | [], _ => rfl
  | name :: names, h => by
    obtain ⟨hname, hnames⟩ := List.forall_mem_cons.mp h
    have ih := follow_of_dots start hnames
    rw [hname]
    exact ih

/-- A walk leaves of its start what is below the levels that it climbs, and adds to that
what does not depend on the start. -/
theorem follow_eq : ∀ names : List String, ∃ rest, ∀ start : Place,
    start.follow names = start.rdrop (climb names) ++ rest
  | [] => ⟨[], fun start => by simp [follow, climb]⟩
  | name :: names => by
    obtain ⟨rest, ih⟩ := follow_eq names
    have hcons : ∀ start : Place, start.follow (name :: names) = (start.next name).follow names :=
      fun _ => rfl
    unfold next at hcons
    rw [climb]
    by_cases hdot : name = "."
    · refine ⟨rest, fun start => ?_⟩
      rw [hcons, if_pos hdot, if_pos hdot, ih]
    by_cases hparent : name = ".."
    · refine ⟨rest, fun start => ?_⟩
      have hup : start.dropLast = start.rdrop 1 := List.dropLast_eq_take
      rw [hcons, if_neg hdot, if_neg hdot, if_pos hparent, if_pos hparent, ih, hup,
        List.rdrop_add, Nat.add_comm]
    simp only [if_neg hdot, if_neg hparent] at hcons ⊢
    cases hclimb : climb names with
    | zero =>
      refine ⟨name :: rest, fun start => ?_⟩
      rw [hcons, ih, hclimb, List.rdrop_zero, List.rdrop_zero, List.append_assoc]
      rfl
    | succ n =>
      refine ⟨rest, fun start => ?_⟩
      rw [hcons, ih, hclimb, List.rdrop_concat_succ, Nat.succ_sub_one]

/-- The same names lead two places to one if what they leave of the two is the same. -/
theorem follow_eq_iff {start other : Place} (names : List String) :
    start.follow names = other.follow names ↔
      start.rdrop (climb names) = other.rdrop (climb names) := by
  obtain ⟨rest, h⟩ := follow_eq names
  rw [h, h, List.append_left_inj]

end Place

namespace FileTree

variable {t : FileTree} {p : Path} {place start : Place} {content : ByteArray}

/-! ## Walks -/

/-- A walk goes on from where its first part leads. -/
theorem walk_append (t : FileTree) (start : Place) (names more : List String) :
    t.walk start (names ++ more) = (t.walk start names >>= fun place => t.walk place more) :=
  List.foldlM_append

theorem walk_append_of_ok {names more : List String} (h : t.walk start names = .ok place) :
    t.walk start (names ++ more) = t.walk place more := by
  rw [walk_append, h]
  rfl

theorem step_eq_ok {name : String} (h : t.step start name = .ok place) :
    t.node? start = some .directory ∧ place = start.next name := by
  obtain ⟨_, hstart, h⟩ := bind_eq_ok h
  refine ⟨requireDirectory_eq_ok_iff.mp hstart, ?_⟩
  unfold Place.next
  split at h
  · rename_i hdot
    rw [if_pos hdot]
    exact (Except.ok.inj h).symm
  · rename_i hdot
    rw [if_neg hdot]
    split at h
    · rename_i hparent
      rw [if_pos hparent]
      exact (Except.ok.inj h).symm
    · rename_i hparent
      rw [if_neg hparent]
      split at h
      · cases h
      · exact (Except.ok.inj h).symm

/-- A walk that gets anywhere gets where its names lead. -/
theorem walk_eq_follow : ∀ {names : List String} {start : Place},
    t.walk start names = .ok place → place = start.follow names
  | [], _, h => (Except.ok.inj h).symm
  | name :: names, start, h => by
    rw [walk, List.foldlM_cons] at h
    obtain ⟨next, hstep, hwalk⟩ := bind_eq_ok h
    rw [walk_eq_follow hwalk, (step_eq_ok hstep).2]
    rfl

/-- Single dots at the end of a walk lead nowhere else. -/
theorem walk_of_dots {names dots : List String} (hdots : ∀ name ∈ dots, name = ".")
    (h : t.walk start (names ++ dots) = .ok place) : t.walk start names = .ok place := by
  rw [walk_append] at h
  obtain ⟨holder, hholder, h⟩ := bind_eq_ok h
  rw [hholder, walk_eq_follow h, holder.follow_of_dots hdots]

/-! ## Paths -/

/-- The place that the walk of a path starts from. -/
def startOf (t : FileTree) (p : Path) : Place := if p.isAbsolute then [] else t.working

/-- The place that the names of a path lead to. -/
def locate (t : FileTree) (p : Path) : Except FileError Place := t.walk (t.startOf p) p.names

theorem route_eq_ok_iff {r : Route} :
    t.route p = .ok r ↔ p.Fits ∧ r = ⟨t.startOf p, p.names, p.endsInSlash⟩ := by
  have hfits : p.Fits ↔ ¬ p.chars.contains '\x00' = true ∧ ¬ p.text.isEmpty = true ∧
      ¬ maxPathBytes < p.text.utf8ByteSize := by
    rw [Nat.not_lt, String.isEmpty_iff, List.contains_iff_mem]
    exact ⟨fun h => ⟨h.noNul, h.notEmpty, h.short⟩, fun h => ⟨h.1, h.2.1, h.2.2⟩⟩
  rw [hfits]
  unfold route
  split
  · rename_i hnul
    exact ⟨nofun, fun h => absurd hnul h.1.1⟩
  split
  · rename_i hempty
    exact ⟨nofun, fun h => absurd hempty h.1.2.1⟩
  split
  · rename_i hlong
    exact ⟨nofun, fun h => absurd hlong h.1.2.2⟩
  rename_i hnul hempty hlong
  refine ⟨fun h => ⟨⟨hnul, hempty, hlong⟩, (Except.ok.inj h).symm⟩, ?_⟩
  rintro ⟨-, rfl⟩
  rfl

/-- The last name of a path is looked up where the names before it lead. -/
theorem locate_concat {before : List String} {name : String} (hnames : p.names = before ++ [name])
    (h : t.locate p = .ok place) : ∃ holder,
      t.walk (t.startOf p) before = .ok holder ∧ t.step holder name = .ok place := by
  rw [locate, hnames, walk_append] at h
  obtain ⟨holder, hwalk, hlast⟩ := bind_eq_ok h
  refine ⟨holder, hwalk, ?_⟩
  rw [← walk_concat hwalk, walk_append_of_ok hwalk]
  exact hlast

/-- What is written to a path is at the place that its names lead to. -/
theorem placeToWrite_eq_ok_iff : t.placeToWrite p = .ok place ↔
    p.Fits ∧ p.endsInSlash = false ∧ p.names ≠ [] ∧ t.locate p = .ok place ∧
      t.node? place ≠ some .directory := by
  constructor
  · intro h
    obtain ⟨r, name, holder, hr, hname, hwalk, -, hslash, hstep, hplace⟩ := placeToWrite_eq_ok h
    obtain ⟨hfits, rfl⟩ := route_eq_ok_iff.mp hr
    obtain ⟨before, hbefore⟩ := List.getLast?_eq_some_iff.mp hname
    dsimp only at hbefore hwalk hslash
    refine ⟨hfits, hslash, by simp [hbefore], ?_, hplace⟩
    rw [hbefore, List.dropLast_concat] at hwalk
    rw [locate, hbefore, walk_concat hwalk, hstep]
  · rintro ⟨hfits, hslash, hnames, hlocate, hplace⟩
    have hconcat := List.dropLast_concat_getLast hnames
    obtain ⟨holder, hwalk, hstep⟩ := locate_concat hconcat.symm hlocate
    have hroute : t.route p = .ok ⟨t.startOf p, p.names, p.endsInSlash⟩ :=
      route_eq_ok_iff.mpr ⟨hfits, rfl⟩
    have hholder := requireDirectory_eq_ok_iff.mpr (step_eq_ok hstep).1
    unfold placeToWrite
    rw [hroute]
    simp only [bind, Except.bind, List.getLast?_eq_some_getLast hnames, hwalk, hholder, hslash,
      hstep, if_neg hplace]
    rfl

/-- What is read at a path is at the place that its names lead to. -/
theorem read_eq_ok (h : t.read p = .ok content) : p.Fits ∧ p.endsInSlash = false ∧
    ∃ place, t.locate p = .ok place ∧ t.node? place = some (.file content) := by
  obtain ⟨r, hr, h⟩ := bind_eq_ok h
  obtain ⟨hfits, rfl⟩ := route_eq_ok_iff.mp hr
  obtain ⟨place, hlocate, h⟩ := bind_eq_ok h
  split at h
  · cases h
  · cases h
  · rename_i hnode
    split at h
    · cases h
    · rename_i hslash
      cases h
      exact ⟨hfits, by simpa using hslash, place, hlocate, hnode⟩

/-! ## Other working directories -/

/-- The tree for one who works at another place. -/
def within (t : FileTree) (place : Place) : FileTree := { t with working := place }

@[simp] theorem node?_within (t : FileTree) (holder place : Place) :
    (t.within holder).node? place = t.node? place := rfl

/-- A path leads to one place from two directories if and only if it is absolute, or leaves
the same of the two when it has climbed. -/
theorem placeToWrite_within_eq_iff {holder other : Place}
    (h : (t.within holder).placeToWrite p = .ok place) (h' : t.placeToWrite p = .ok other) :
    place = other ↔ p.isAbsolute = true ∨
      holder.rdrop (Place.climb p.names) = t.working.rdrop (Place.climb p.names) := by
  obtain ⟨-, -, -, hlocate, -⟩ := placeToWrite_eq_ok_iff.mp h
  obtain ⟨-, -, -, hlocate', -⟩ := placeToWrite_eq_ok_iff.mp h'
  rw [walk_eq_follow hlocate, walk_eq_follow hlocate', Place.follow_eq_iff, startOf, startOf]
  cases p.isAbsolute with
  | true => exact iff_of_true rfl (Or.inl rfl)
  | false => simp [within]

/-! ## Directories that hold -/

/-- Whatever is at a place is held by a directory. -/
def Closed (t : FileTree) : Prop := ∀ n ∈ t.nodes, t.node? n.1.dropLast = some .directory

instance (t : FileTree) : Decidable t.Closed :=
  inferInstanceAs (Decidable (∀ n ∈ t.nodes, t.node? n.1.dropLast = some .directory))

theorem Closed.holder (h : t.Closed) {node : Node} (hnode : t.node? place = some node) :
    t.node? place.dropLast = some .directory := by
  unfold node? at hnode
  split at hnode
  · rename_i hroot
    rw [hroot]
    rfl
  · obtain ⟨before, after, hnodes, -⟩ := List.lookup_eq_some_iff.mp hnode
    exact h (place, node) (by simp [hnodes])

/-- A file that is reached by a name is held by the directory where the name is looked up. -/
theorem Closed.place_of_step (h : t.Closed) {name : String} (hstep : t.step start name = .ok place)
    (hfile : t.node? place = some (.file content)) : place = start ++ [name] := by
  obtain ⟨hstart, hplace⟩ := step_eq_ok hstep
  unfold Place.next at hplace
  have hdirectory : t.node? place ≠ some .directory := by simp [hfile]
  split at hplace
  · rw [hplace] at hdirectory
    exact absurd hstart hdirectory
  split at hplace
  · rw [hplace] at hdirectory
    exact absurd (h.holder hstart) hdirectory
  · exact hplace

end FileTree

end WrapGen
