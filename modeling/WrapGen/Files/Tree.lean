import WrapGen.Files.System
/-!
# File trees

A file tree holds directories and files at places, which are lists of names from
the root, and has a working directory. A path is walked name by name. Every name
is looked up in a directory, so that a missing directory, or a file in its place,
is noticed where the path passes it.

Main statements: `node?_put_self` and `node?_put_of_ne`, putting a node
somewhere changes that place only.
-/
namespace WrapGen

/-- The names from the root. -/
abbrev Place := List String

/-- What may be at a place. -/
inductive Node where
  | directory
  | file (content : ByteArray)

/-- Equality of nodes is equality of the bytes of files. -/
instance : DecidableEq Node
  | .directory, .directory => isTrue rfl
  | .file a, .file b =>
    match ByteArray.instDecidableEq a b with
    | isTrue h => isTrue (h ▸ rfl)
    | isFalse h => isFalse fun e => h (Node.file.inj e)
  | .directory, .file _ | .file _, .directory => isFalse nofun

/-- Directories and files, of which the root is not listed, and the working
directory. -/
structure FileTree where
  nodes : List (Place × Node)
  working : Place

namespace FileTree

/-- The node at a place; the root is a directory. -/
def node? (t : FileTree) (place : Place) : Option Node :=
  if place = [] then some .directory else t.nodes.lookup place

/-- The tree with a node at a place, in place of what is there. -/
def put (t : FileTree) (place : Place) (node : Node) : FileTree :=
  { t with nodes := (place, node) :: t.nodes.filter fun n => n.1 != place }

/-- The tree with a directory at a place and at every place above it. -/
def addDirectory (t : FileTree) (place : Place) : FileTree :=
  (List.range place.length).foldl (fun t n => t.put (place.take (n + 1)) .directory) t

/-! ## Walking -/

/-- Bytes of the longest name. -/
def maxNameBytes : Nat := 255

/-- Bytes of the longest path. -/
def maxPathBytes : Nat := 4095

/-- Fails unless a directory is at the place. -/
def requireDirectory (t : FileTree) (place : Place) : Except FileError Unit :=
  match t.node? place with
  | some .directory => .ok ()
  | some (.file _) => .error .notDirectory
  | none => .error .notFound

/-- The place of a name in the directory at a place. -/
def step (t : FileTree) (place : Place) (name : String) : Except FileError Place := do
  t.requireDirectory place
  if name = "." then return place
  else if name = ".." then return place.dropLast
  else if maxNameBytes < name.utf8ByteSize then throw .nameTooLong
  else return place ++ [name]

/-- The place that names lead to. -/
def walk (t : FileTree) (start : Place) (names : List String) : Except FileError Place :=
  names.foldlM t.step start

/-- A path as the place it starts from, its names, and whether it ends in a slash
and so means a directory. -/
structure Route where
  start : Place
  names : List String
  endsInSlash : Bool

/-- The route of a path. -/
def route (t : FileTree) (p : Path) : Except FileError Route :=
  if p.chars.contains '\x00' then .error .nulInPath
  else if p.text.isEmpty then .error .notFound
  else if maxPathBytes < p.text.utf8ByteSize then .error .nameTooLong
  else
    let names := (Text.fields '/' p.chars).filter fun name => !name.isEmpty
    .ok ⟨if p.isAbsolute then [] else t.working, names.map String.ofList,
      p.chars.getLast? == some '/'⟩

/-! ## Files -/

/-- The content of the file at a path. -/
def read (t : FileTree) (p : Path) : Except FileError ByteArray := do
  let r ← t.route p
  let place ← t.walk r.start r.names
  match t.node? place with
  | none => throw .notFound
  | some .directory => throw .isDirectory
  | some (.file content) => if r.endsInSlash then throw .notDirectory else return content

/-- The place at which the path of a file to write leads. -/
def placeToWrite (t : FileTree) (p : Path) : Except FileError Place := do
  let r ← t.route p
  match r.names.getLast? with
  | none => throw .isDirectory
  | some name =>
    let holder ← t.walk r.start r.names.dropLast
    t.requireDirectory holder
    if r.endsInSlash then throw .isDirectory
    let place ← t.step holder name
    if t.node? place = some .directory then throw .isDirectory
    return place

/-- The tree with a text in the file at a path. -/
def write (t : FileTree) (p : Path) (text : String) : Except FileError FileTree := do
  let place ← t.placeToWrite p
  return t.put place (.file text.toUTF8)

/-- A file tree as a state; what cannot be written leaves it as it was. -/
instance : FileSystem (StateM FileTree) where
  read p := return (← get).read p
  write p text := do
    match (← get).write p text with
    | .ok t => set t; return .ok ()
    | .error e => return .error e

/-- The files that an earlier tree does not hold with the same content. -/
def filesSince (t before : FileTree) : List (Place × ByteArray) :=
  t.nodes.filterMap fun n =>
    match n.2 with
    | .file content => if before.node? n.1 = some n.2 then none else some (n.1, content)
    | .directory => none

/-! ## Putting changes one place -/

theorem node?_put_self {t : FileTree} {place : Place} (h : place ≠ []) (node : Node) :
    (t.put place node).node? place = some node := by
  simp [node?, put, h]

theorem lookup_filter_of_ne {place other : Place} (h : other ≠ place) (nodes : List (Place × Node)) :
    (nodes.filter fun n => n.1 != place).lookup other = nodes.lookup other := by
  induction nodes with
  | nil => rfl
  | cons n nodes ih =>
    obtain ⟨there, node⟩ := n
    by_cases hn : there = place
    · have ho : (other == there) = false := by simpa [hn] using h
      simp only [hn] at ho ⊢
      simpa [List.lookup_cons, ho] using ih
    · simp [hn, List.lookup_cons, ih]

theorem node?_put_of_ne {t : FileTree} {place other : Place} (h : other ≠ place) (node : Node) :
    (t.put place node).node? other = t.node? other := by
  have hf : (other == place) = false := by simpa using h
  simp only [node?, put, List.lookup_cons, hf, lookup_filter_of_ne h]

end FileTree

end WrapGen
