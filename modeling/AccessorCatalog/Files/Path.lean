/-
# Paths

A path is a text; its components are what its slashes separate.  Repeated slashes and points between
others vanish, a leading point and every double point stay.  `relative` is the path of a file as
seen from a root.
-/
import AccessorCatalog.Text.Basic

namespace AccessorCatalog.Files

/-- What a path is made of. -/
inductive Component where
  /-- The slash in front of an absolute path. -/
  | root
  /-- The point in front of a path. -/
  | here
  /-- A double point. -/
  | up
  | name (t : Text)
  deriving DecidableEq, Repr

namespace Component

/-- How a component is written. -/
def render : Component → Text
  | root => ['/']
  | here => ['.']
  | up => ['.', '.']
  | name t => t

/-- The component that a piece between slashes is; none for an empty piece or a point. -/
def ofPiece? (piece : Text) : Option Component :=
  if piece = [] ∨ piece = ['.'] then none
  else if piece = ['.', '.'] then some up
  else some (name piece)

end Component

namespace Path

/-- The components of a path. -/
def components (path : Text) : List Component :=
  let pieces := Text.splitOn '/' path
  let body := pieces.filterMap Component.ofPiece?
  match path with
  | '/' :: _ => .root :: body
  | _ => if pieces.head? = some ['.'] then .here :: body else body

/-- Components as a text. -/
def render (components : List Component) : Text :=
  Text.join ['/'] (components.map Component.render)

/-- The last component of a path, if it is a name. -/
def fileName? (path : Text) : Option Text :=
  match (components path).getLast? with
  | some (.name t) => some t
  | _ => none

/-- The components behind a root. -/
def behind? : (root path : List Component) → Option (List Component)
  | [], path => some path
  | _ :: _, [] => none
  | a :: root, b :: path => if a = b then behind? root path else none

/-- A path as seen from a root.  A path that is the root itself, or that does not lie below it, is
seen as its file name; a path without one as it is. -/
def relative (root path : Text) : Text :=
  match behind? (components root) (components path) with
  | some (c :: rest) => render (c :: rest)
  | _ =>
    match fileName? path with
    | some name => name
    | none => render (components path)

/-- The extension of a file name: what follows its last point, unless that is its first
character. -/
def extension? (fileName : Text) : Option Text :=
  match Text.cutLast? ['.'] fileName with
  | some (base, extension) => if base.isEmpty then none else some extension
  | none => none

/-- A path with another one below it. -/
def below (path other : Text) : Text :=
  if path.isEmpty then other
  else if Text.endsWith ['/'] path then path ++ other
  else path ++ '/' :: other

/-- A path without one point and slash in front. -/
def withoutHere (path : Text) : Text :=
  Text.withoutPrefix "./".toList path

/-- The spelling of a path as seen from the spelling of a folder: what follows the folder and the
slash behind it, or the whole path if it does not start with the folder.  Before that, one point
with its slash vanishes in front of the folder, and up to two in front of the path; so a path keeps
a folder that is spelled with more than one.  A folder that is a mere point is not taken off, and
nothing is taken off a path that is a name. -/
def seenFrom (folder path : Text) : Text :=
  let folder := withoutHere folder
  let path := withoutHere (withoutHere path)
  if components folder = [.here] ∨ ¬ path.contains '/' then path
  else
    match Text.afterPrefix? folder path with
    | some rest => Text.withoutPrefix ['/'] rest
    | none => path

/-- The way to the folder that a path lies in. -/
def folder (path : Text) : List Component :=
  (components path).dropLast

/-- Whether a path can only name a folder. -/
def namesFolder (path : Text) : Bool :=
  Text.endsWith ['/'] path || Text.endsWith ['/', '.'] path

end Path
end AccessorCatalog.Files
