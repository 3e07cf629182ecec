/-
# Finding headers

The headers below a root are the files with one of the given extensions that no ignore file passes
over and no exclusion pattern describes, in the order of their paths from the root.  A root that is
a file is its own only candidate; ignore files do not concern it.

Ignore files above the root see the places of what is below; those from the root on see the spelling
of the root, so that a root spelled with points in front can hide paths from them.
-/
import AccessorCatalog.Files.Ignore
import AccessorCatalog.Files.RepositoryLink

namespace AccessorCatalog.Files

/-- A header that was found: its path from the root and its contents. -/
structure FoundHeader where
  path : Text
  bytes : List UInt8
  deriving DecidableEq, Repr

/-- Why a root cannot be searched. -/
inductive SearchFault where
  | invalidPattern (pattern : Text)
  | missingRoot
  /-- A line of an ignore file above the root is no pattern, or a link above the root cannot be
  read. -/
  | faultyIgnoreFile
  deriving DecidableEq, Repr

/-- Which files are headers. -/
structure HeaderFilter where
  extensions : List Text
  exclude : List Glob

namespace HeaderFilter

/-- Reads the exclusion patterns of a filter. -/
def ofPatterns (extensions patterns : List Text) : Except SearchFault HeaderFilter := do
  let exclude ← patterns.mapM fun pattern =>
    match Glob.ofPattern pattern with
    | .ok glob => .ok glob
    | .error _ => .error (.invalidPattern pattern)
  return ⟨extensions, exclude⟩

/-- Whether a path from a root is that of a header. -/
def accepts (f : HeaderFilter) (path : Text) : Bool :=
  match (Path.fileName? path).bind Path.extension? with
  | some extension => f.extensions.contains extension && !f.exclude.any (·.describes path)
  | none => false

end HeaderFilter

namespace FileTree

/-- The exclusion file of a repository that a link leads to. -/
def linkedExclusion? (t : FileTree) (folder : Place) (link : List UInt8) : Option IgnoreFile :=
  match t.followLink link with
  | .nowhere => none
  | .unreadable => some { kind := .exclusion, folder, rules := [], faulty := true }
  | .folder path =>
    (t.read? (exclusionFile path)).map (IgnoreFile.parse .exclusion folder)

/-- The ignore files of a tree. -/
def ignoreFiles (t : FileTree) : List IgnoreFile :=
  let inPlace := t.files.entries.flatMap fun (k, bytes) =>
    let place := placeOfKey k
    IgnoreKind.all.filterMap fun kind =>
      if kind.location.isSuffixOf place then
        some (IgnoreFile.parse kind (place.take (place.length - kind.location.length)) bytes)
      else none
  inPlace ++ t.links.filterMap fun (folder, link) => t.linkedExclusion? folder link

/-- The spelling of a place at or below a root. -/
def spelling (root : Text) (rootPlace place : Place) : Text :=
  match place.drop rootPlace.length with
  | [] => root
  | names => Path.below root (key names)

/-- A place below a root as an ignore file sees it. -/
def seenBy (root : Text) (rootPlace place : Place) (file : IgnoreFile) : Text :=
  if file.folder.length < rootPlace.length then key (place.drop file.folder.length)
  else Path.seenFrom (spelling root rootPlace file.folder) (spelling root rootPlace place)

/-- Whether a file below a root is reached: neither it nor a folder on the way from the root is
passed over. -/
def isReached (ignore : List IgnoreFile) (root : Text) (rootPlace place : Place) : Bool :=
  (List.range (place.length - rootPlace.length)).all fun n =>
    let length := rootPlace.length + n + 1
    let part := place.take length
    !isIgnored ignore (seenBy root rootPlace part) part (length < place.length)

/-- The headers below a root. -/
def headers (t : FileTree) (filter : HeaderFilter) (root : Text) :
    Except SearchFault (List FoundHeader) :=
  match t.find? root with
  | none => .error .missingRoot
  | some (_, .file bytes) =>
    let path := Path.relative root root
    .ok (if filter.accepts path then [⟨path, bytes⟩] else [])
  | some (rootPlace, .folder) =>
    let ignore := t.ignoreFiles
    if ignore.any fun file => file.faulty && file.covers rootPlace then .error .faultyIgnoreFile
    else
      let found := t.files.entries.filterMap fun (k, bytes) =>
        let place := placeOfKey k
        if rootPlace.length < place.length && rootPlace.isPrefixOf place &&
            isReached ignore root rootPlace place then
          let path := Path.relative root (spelling root rootPlace place)
          if filter.accepts path then some ⟨path, bytes⟩ else none
        else none
      .ok (found.mergeSort fun a b => !Text.precedes b.path a.path)

end FileTree
end AccessorCatalog.Files
