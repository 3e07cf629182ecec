/-
# Links to repositories

A folder belongs to a repository by a folder `.git` in it, or by a file of that name.  Such a file
is a link: its first line is `gitdir: ` with the folder that it stands for, and the file `commondir`
in there names, again in its first line, the folder of the repository itself.

A link leads somewhere, nowhere, or cannot be read.  Paths in it are looked up from the folder in
which the program runs; only a line that starts with a point is a path from the folder before.
-/
import AccessorCatalog.Files.FileTree
import AccessorCatalog.Text.Utf8

namespace AccessorCatalog.Files

/-- The name by which a folder belongs to a repository. -/
def repositoryName : Text :=
  ".git".toList

/-- The first line of a file. -/
inductive FirstLine where
  /-- The file is empty. -/
  | missing
  /-- The line is no text. -/
  | broken
  | line (t : Text)
  deriving DecidableEq, Repr

/-- The first line of some bytes. -/
def FirstLine.ofBytes (bytes : List UInt8) : FirstLine :=
  match Text.byteLines bytes with
  | [] => .missing
  | first :: _ => (Text.decode? first).elim .broken .line

/-- Where a link leads. -/
inductive LinkEnd where
  | nowhere
  | unreadable
  /-- The folder of the repository. -/
  | folder (path : Text)
  deriving DecidableEq, Repr

/-- The folder that a link stands for, from its first line. -/
def linkedFolder? (line : Text) : Option Text :=
  Text.afterPrefix? "gitdir: ".toList line

/-- Where the folder that a link stands for names that of the repository. -/
def commonFile (linked : Text) : Text :=
  Path.below linked "commondir".toList

/-- Where a link with the given contents says which repository it belongs to. -/
def namingFile? (link : List UInt8) : Option Text :=
  match FirstLine.ofBytes link with
  | .line line => (linkedFolder? line).map commonFile
  | _ => none

/-- The folder of a repository, from the first line of the file that names it. -/
def commonFolder (linked line : Text) : Text :=
  if Text.startsWith ['.'] line then Path.below linked line else line

/-- The exclusion file of a repository. -/
def exclusionFile (repository : Text) : Text :=
  Path.below repository "info/exclude".toList

namespace FileTree

/-- Where a link with the given contents leads. -/
def followLink (t : FileTree) (link : List UInt8) : LinkEnd :=
  match FirstLine.ofBytes link with
  | .missing => .nowhere
  | .broken => .unreadable
  | .line line =>
    match linkedFolder? line with
    | none => .nowhere
    | some linked =>
      match t.find? (commonFile linked) with
      | none => .nowhere
      | some (_, .folder) => .unreadable
      | some (_, .file bytes) =>
        match FirstLine.ofBytes bytes with
        | .missing => .nowhere
        | .broken => .unreadable
        | .line line => .folder (commonFolder linked line)

/-- The links of a tree, with the folders that they are in. -/
def links (t : FileTree) : List (Place × List UInt8) :=
  t.files.entries.filterMap fun (k, bytes) =>
    let place := placeOfKey k
    if place.getLast? = some repositoryName then some (place.dropLast, bytes) else none

end FileTree
end AccessorCatalog.Files
