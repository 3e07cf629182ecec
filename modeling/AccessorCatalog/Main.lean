/-
# The program

The outer layer: it brings what the command looks at into a file tree, runs the command on the tree,
and writes what has changed.
-/
import AccessorCatalog.CommandLine.CreationTime
import AccessorCatalog.CommandLine.Inspection
import AccessorCatalog.CommandLine.Run

namespace AccessorCatalog.Program

open CommandLine
open Files (FileTree IgnoreKind Place)

/-- The usage of the program. -/
def usage : String :=
  "Class map and accessor catalogs from headers

Usage: headercat [--verbose] [--config FILE] COMMAND

Commands:
  map ROOT... [--jobs N] [--out FILE] [--update]
  catalog ROOT... [--jobs N] [--out-dir DIR] [--oracle FILE] [--previous DIR] [--report FILE]
  show CLASS ROOT... [--jobs N] [--oracle FILE]
  classlist --classes FILE [--map FILE] [--exclude FILE] [--out FILE]
  help"

/-- The absolute path of a place. -/
def pathOf (place : Place) : String :=
  String.ofList ('/' :: FileTree.key place)

/-- Adds a file to a tree, if it can be read. -/
def addFile (tree : FileTree) (place : Place) : IO FileTree := do
  try
    let bytes ← IO.FS.readBinFile (pathOf place)
    return { tree with files := tree.files.insert (FileTree.key place) bytes.toList }
  catch _ => return tree

/-- Whether a path leads to a folder. -/
def isFolder (path : String) : IO Bool := do
  try (← IO.FS.realPath path).isDir
  catch _ => return false

/-- Adds what lies at a place to a tree; folders reached over links are left out. -/
partial def addBelow (tree : FileTree) (place : Place) : IO FileTree := do
  let path := pathOf place
  unless ← isFolder path do
    return ← addFile tree place
  let mut tree := tree.addFolder place
  for item in ← (← IO.FS.realPath path).readDir do
    let data ← item.path.symlinkMetadata
    unless data.type == .symlink && (← item.path.isDir) do
      tree ← addBelow tree (place ++ [item.fileName.toList])
  return tree

/-- Adds what lies at a place, and nothing below it, with the ignore files that are there and a link
to a repository. -/
def addNode (tree : FileTree) (place : Place) : IO FileTree := do
  if ← isFolder (pathOf place) then
    let locations := [Files.repositoryName] :: IgnoreKind.all.map IgnoreKind.location
    locations.foldlM (fun tree location => addFile tree (place ++ location)) (tree.addFolder place)
  else addFile tree place

/-- Adds what a command looks at: what lies at a path and at all places on the way. -/
def addInspected (tree : FileTree) (inspected : Inspected) : IO FileTree := do
  let mut tree := tree
  let mut place := tree.here
  for component in Files.Path.components inspected.path do
    place := Place.follow place component
    tree ← addNode tree place
  if inspected.below then addBelow tree place else return tree

/-- Adds what the links to repositories lead to. -/
def addLinked (tree : FileTree) : IO FileTree := do
  let naming := tree.links.filterMap fun (_, link) => Files.namingFile? link
  let tree ← naming.foldlM (fun tree path => addInspected tree (.file path)) tree
  tree.links.foldlM
    (fun tree (_, link) =>
      match tree.followLink link with
      | .folder path => addInspected tree (.file (Files.exclusionFile path))
      | _ => return tree)
    tree

/-- Writes what is new in a tree. -/
def writeChanges (before after : FileTree) : IO Unit := do
  for place in after.folders do
    unless before.isFolder place do
      IO.FS.createDirAll (pathOf place)
  for (key, bytes) in after.changedSince before do
    IO.FS.writeBinFile (pathOf (FileTree.placeOfKey key)) ⟨bytes.toArray⟩

/-- The tree that a command starts from. -/
def startTree (arguments : List Text) : IO FileTree := do
  let folder ← IO.currentDir
  let here := FileTree.placeOfKey folder.toString.toList
  let tree : FileTree := ⟨here, .empty, []⟩
  match Invocation.read arguments with
  | .ok invocation =>
    let tree ← (List.range here.length).foldlM (fun tree n => addNode tree (here.take (n + 1))) tree
    addLinked (← invocation.inspected.foldlM addInspected tree)
  | .error _ => return tree

/-- Runs the program; the result is its exit code. -/
def start (arguments : List Text) : IO UInt32 := do
  let created := creationText (← Std.Time.PlainDateTime.now)
  let before ← startTree arguments
  let outcome := CommandLine.run created before arguments
  writeChanges before outcome.tree
  IO.print (String.ofList outcome.printed)
  match outcome.ending with
  | .success => pure ()
  | .failure failure => IO.eprintln s!"Error: {String.ofList failure.message}"
  | .help => IO.println usage
  | .misuse => IO.eprintln usage
  return outcome.ending.exitCode.toUInt32

end AccessorCatalog.Program

/-- The program. -/
def main (arguments : List String) : IO UInt32 :=
  AccessorCatalog.Program.start (arguments.map String.toList)
