/-
# File trees

A file tree is what a run of the program sees of the file system: the contents of files by their
places, and folders.  A place is the list of names on the way from the top of the tree; paths are
looked up from the folder in which the program runs, and a double point goes up from a folder.

Writing can be blocked: by a folder in the place of the file, by a file in the place of a folder, by
a folder that is not there, or by a name that is too long.
-/
import AccessorCatalog.Files.Path
import AccessorCatalog.Table

namespace AccessorCatalog.Files

/-- The names on the way to a file or folder. -/
abbrev Place := List Text

/-- The place that one component leads to from a place. -/
def Place.follow (place : Place) : Component → Place
  | .root => []
  | .here => place
  | .up => place.dropLast
  | .name name => place ++ [name]

/-- Files and folders. -/
structure FileTree where
  /-- The folder in which the program runs. -/
  here : Place
  /-- The contents of the files, by the names on the way to them put together with slashes. -/
  files : Table (List UInt8)
  /-- Folders that are there even if nothing is in them. -/
  folders : List Place

/-- What is found at a path. -/
inductive Node where
  | file (bytes : List UInt8)
  | folder

/-- Why a folder cannot be made. -/
inductive FolderFault where
  /-- A file is in its place. -/
  | taken
  /-- A file is in the place of a folder on the way. -/
  | blocked
  deriving DecidableEq, Repr

namespace FileTree

/-! ## Places -/

/-- The key of a place. -/
def key (place : Place) : Text :=
  Text.join ['/'] place

/-- The place of a key. -/
def placeOfKey (key : Text) : Place :=
  (Text.splitOn '/' key).filter fun name => !name.isEmpty

/-- The contents of the file at a place. -/
def file? (t : FileTree) (place : Place) : Option (List UInt8) :=
  t.files.get? (key place)

/-- Whether a place is a folder. -/
def isFolder (t : FileTree) (place : Place) : Bool :=
  place.isEmpty || t.folders.any place.isPrefixOf || place.isPrefixOf t.here ||
    t.files.keys.any fun k =>
      let other := placeOfKey k
      place.length < other.length && place.isPrefixOf other

/-- The place that a path leads to.  A double point leads nowhere from a place that is no folder. -/
def place? (t : FileTree) (path : Text) : Option Place :=
  (Path.components path).foldlM
    (fun place c => if c = .up ∧ ¬ t.isFolder place then none else some (Place.follow place c))
    t.here

/-- What is found at a path, with its place. -/
def find? (t : FileTree) (path : Text) : Option (Place × Node) := do
  let place ← t.place? path
  match t.file? place with
  | some bytes => if Path.namesFolder path then none else some (place, .file bytes)
  | none => if t.isFolder place then some (place, .folder) else none

/-- Whether something is found at a path. -/
def isThere (t : FileTree) (path : Text) : Bool :=
  (t.find? path).isSome

/-- The contents of the file at a path. -/
def read? (t : FileTree) (path : Text) : Option (List UInt8) :=
  match t.find? path with
  | some (_, .file bytes) => some bytes
  | _ => none

/-! ## Changes -/

/-- Adds a folder, unless it is there. -/
def addFolder (t : FileTree) (place : Place) : FileTree :=
  if t.isFolder place then t else { t with folders := t.folders ++ [place] }

/-- Makes the folders on a way from a place. -/
def makeFoldersFrom (t : FileTree) (place : Place) : List Component → Except FolderFault FileTree
  | [] => .ok t
  | .root :: way => t.makeFoldersFrom [] way
  | .here :: way => t.makeFoldersFrom place way
  | .up :: way => t.makeFoldersFrom place.dropLast way
  | .name name :: way =>
    let place := place ++ [name]
    if (t.file? place).isSome then .error (if way.isEmpty then .taken else .blocked)
    else (t.addFolder place).makeFoldersFrom place way

/-- Makes a folder with all folders on the way. -/
def makeFolders (t : FileTree) (way : List Component) : Except FolderFault FileTree :=
  t.makeFoldersFrom t.here way

/-- The longest name of a file, in bytes. -/
def nameLimit : Nat := 255

/-- Writes a file, if its folder is there, no folder is in its place and its name is not too
long. -/
def write? (t : FileTree) (path : Text) (bytes : List UInt8) : Option FileTree := do
  let place ← t.place? path
  let isLong := Text.byteLength (place.getLastD []) > nameLimit
  if isLong || Path.namesFolder path || t.isFolder place || !t.isFolder place.dropLast then none
  else some { t with files := t.files.insert (key place) bytes }

/-! ## Contents -/

/-- The files directly in a folder, with their names. -/
def children (t : FileTree) (place : Place) : List (Text × List UInt8) :=
  t.files.entries.filterMap fun (k, bytes) =>
    let other := placeOfKey k
    match other.getLast? with
    | some name => if other.dropLast = place then some (name, bytes) else none
    | none => none

/-- The files that are new or changed against another tree. -/
def changedSince (t earlier : FileTree) : List (Text × List UInt8) :=
  t.files.entries.filter fun (k, bytes) => earlier.files.get? k != some bytes

end FileTree
end AccessorCatalog.Files
