import MipsSource.Fault
import MipsSource.Text.Quoted

/-!
# File trees

The files and directories under a working directory, as far as a program sees them when it opens
a path for reading or for writing. A path may leave the working directory; outside it no names are
known.

* `file?_put_self`, `file?_put_of_ne`: a file that was written has its new content, others have
  theirs as before.
-/

set_option autoImplicit false

namespace MipsSource.CommandLine

/-- Why a path cannot be opened. -/
structure OpenError where
  code : Nat
  text : String
deriving DecidableEq, Repr

namespace OpenError

/-- Nothing has this path. -/
def notFound : OpenError := ⟨2, "No such file or directory"⟩

/-- The path goes through a file. -/
def notDirectory : OpenError := ⟨20, "Not a directory"⟩

/-- The path leads to a directory. -/
def isDirectory : OpenError := ⟨21, "Is a directory"⟩

/-- The path has a name that no file can have. -/
def nameTooLong : OpenError := ⟨36, "File name too long"⟩

/-- The error for a path on one line. -/
def message (e : OpenError) (path : String) : String :=
  "[Errno " ++ Nat.repr e.code ++ "] " ++ e.text ++ ": " ++ Text.quoted path.toList

end OpenError

/-- A directory that names lead on from. -/
inductive Base where
  /-- The directory that many levels above the working directory. -/
  | above (levels : Nat)
  | root
deriving DecidableEq, Repr

/-- The directory above. The root is above itself. -/
def Base.parent : Base → Base
  | .above levels => .above (levels + 1)
  | .root => .root

/-- Where a path leads: names from a directory on. -/
structure Place where
  base : Base
  names : List String
deriving DecidableEq, Repr

namespace Place

/-- The place of names in the working directory. -/
def inside (names : List String) : Place :=
  ⟨.above 0, names⟩

/-- The directory of a place; that of a base is the one above. -/
def parent (p : Place) : Place :=
  if p.names.isEmpty then { p with base := p.base.parent } else { p with names := p.names.dropLast }

/-- The place after one more name: a single point stays, two points lead back. -/
def enter (p : Place) (name : String) : Place :=
  if name = "." then p
  else if name = ".." then p.parent
  else { p with names := p.names ++ [name] }

end Place

/-- Files and directories by their places. The bases are directories, too. -/
structure FileTree where
  files : List (Place × ByteArray) := []
  directories : List Place := []

namespace FileTree

/-- The pieces of a text between slashes. -/
def splitSlash : List Char → List (List Char)
  | [] => [[]]
  | c :: rest =>
    if c = '/' then [] :: splitSlash rest
    else
      match splitSlash rest with
      | [] => [[c]]
      | piece :: pieces => (c :: piece) :: pieces

/-- The names on a path. -/
def names (path : String) : List String :=
  ((splitSlash path.toList).map String.ofList).filter (· ≠ "")

/-- The names that lead to the directories on the way to `names`, and `names` itself. -/
def ancestry (names : List String) : List (List String) :=
  (List.range names.length).map fun n => names.take (n + 1)

/-- The tree of some files and directories, by their paths, with the directories on the way to
them. -/
def ofPaths (files : List (String × ByteArray)) (directories : List String) : FileTree where
  files := files.map fun (path, content) => (.inside (names path), content)
  directories := (directories.flatMap (fun path => ancestry (names path)) ++
    files.flatMap fun (path, _) => ancestry (names path).dropLast).map .inside

/-- Is there a directory at this place? -/
def isDirectory (t : FileTree) (place : Place) : Bool :=
  place.names.isEmpty || t.directories.contains place

/-- The file at this place. -/
def file? (t : FileTree) (place : Place) : Option ByteArray :=
  t.files.lookup place

/-- The greatest number of bytes of a name. -/
def maxNameSize : Nat := 255

/-- The greatest number of bytes of a path. -/
def maxPathSize : Nat := 4095

/-- Follows names from a directory on. All but the last have to lead to directories. -/
def follow (t : FileTree) : Place → List String → Except OpenError Place
  | directory, [] => .ok directory
  | directory, name :: rest =>
    if maxNameSize < name.utf8ByteSize then .error .nameTooLong
    else
      let next := directory.enter name
      if rest.isEmpty || t.isDirectory next then follow t next rest
      else if (t.file? next).isSome then .error .notDirectory
      else .error .notFound

/-- Does the path ask for a directory? -/
def endsInSlash (path : String) : Bool :=
  path.toList.getLast? = some '/'

/-- The directory that a path starts from. -/
def start (path : String) : Place :=
  if path.toList.head? = some '/' then ⟨.root, []⟩ else .inside []

/-- The names on a path that can be followed. -/
def checkedNames (path : String) : Except OpenError (List String) :=
  if path = "" then .error .notFound
  else if maxPathSize < path.utf8ByteSize then .error .nameTooLong
  else .ok (names path)

/-- The content of the file that a path leads to. -/
def read (t : FileTree) (path : String) : Except OpenError ByteArray := do
  let place ← t.follow (start path) (← checkedNames path)
  if t.isDirectory place then throw .isDirectory
  else
    match t.file? place with
    | none => throw .notFound
    | some content => if endsInSlash path then throw .notDirectory else return content

/-- The tree with a file at this place. -/
def put (t : FileTree) (place : Place) (content : ByteArray) : FileTree :=
  { t with files := (place, content) :: t.files.filter fun entry => entry.1 ≠ place }

theorem file?_put_self (t : FileTree) (place : Place) (content : ByteArray) :
    (t.put place content).file? place = some content := by
  simp [put, file?]

theorem lookup_filter_of_ne {place other : Place} (h : other ≠ place)
    (files : List (Place × ByteArray)) :
    (files.filter fun entry => entry.1 ≠ place).lookup other = files.lookup other := by
  induction files with
  | nil => rfl
  | cons entry rest ih =>
    obtain ⟨key, content⟩ := entry
    by_cases hk : key = place
    · have hn : (other == key) = false := by simp [hk, h]
      simp only [List.filter_cons, hk, ne_eq, not_true_eq_false, decide_false, Bool.false_eq_true,
        if_false]
      rw [ih, List.lookup_cons, ← hk, hn]
    · simp only [List.filter_cons, ne_eq, hk, not_false_eq_true, decide_true, if_true,
        List.lookup_cons]
      rw [ih]

theorem file?_put_of_ne {t : FileTree} {place other : Place} (h : other ≠ place)
    (content : ByteArray) : (t.put place content).file? other = t.file? other := by
  have hn : (other == place) = false := by simp [h]
  simp only [put, file?, List.lookup_cons, hn]
  exact lookup_filter_of_ne h t.files

/-- Opens a path for writing: the place of the file, and the tree in which the file is there and
empty. -/
def create (t : FileTree) (path : String) : Except OpenError (Place × FileTree) := do
  let names ← checkedNames path
  if endsInSlash path then
    let _ ← t.follow (start path) (names.dropLast ++ ["."])
    throw .isDirectory
  else
    let place ← t.follow (start path) names
    if t.isDirectory place then throw .isDirectory else return (place, t.put place .empty)

/-- The tree with more content at the end of the file at a place. -/
def append (t : FileTree) (place : Place) (content : ByteArray) : FileTree :=
  t.put place ((t.file? place).getD .empty ++ content)

/-- Is there a file with this content at a place? -/
def holds (t : FileTree) (place : Place) (content : ByteArray) : Bool :=
  match t.file? place with
  | some found => found.data = content.data
  | none => false

/-- The files in the working directory that an earlier tree has not, or not with this content, by
their names. -/
def changes (before now : FileTree) : List (List String × ByteArray) :=
  (now.files.filter fun (place, content) =>
    place = .inside place.names && !before.holds place content).map fun (place, content) =>
      (place.names, content)

/-- Can a path be opened at all? -/
def pathOk (path : String) : Bool :=
  !path.toList.contains '\x00'

end FileTree

end MipsSource.CommandLine
