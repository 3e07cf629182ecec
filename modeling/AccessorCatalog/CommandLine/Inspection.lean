/-
# What a command looks at

Before a command runs, everything that it may look at is brought into a file tree.
`Command.inspected` names the paths, and says of which of them it looks below.
-/
import AccessorCatalog.Catalog.Shelf
import AccessorCatalog.CommandLine.Invocation

namespace AccessorCatalog.CommandLine

/-- A path that a command looks at. -/
structure Inspected where
  path : Text
  /-- The command looks at everything below, if there is a folder. -/
  below : Bool
  deriving DecidableEq, Repr

/-- A path of a file. -/
def Inspected.file (path : Text) : Inspected :=
  ⟨path, false⟩

/-- A path of a folder that is searched. -/
def Inspected.folder (path : Text) : Inspected :=
  ⟨path, true⟩

/-- The paths that a command looks at. -/
def Command.inspected : Command → List Inspected
  | .map scan out _ => .file out :: scan.roots.map .folder
  | .catalog scan outFolder oracle? previous? report? =>
    .file (Files.Path.below outFolder Shelf.name) ::
      .file (Files.Path.below outFolder classMapFile) ::
      (oracle?.toList ++ report?.toList).map .file ++
      (previous?.toList ++ scan.roots).map .folder
  | .showClass _ scan oracle? => oracle?.toList.map .file ++ scan.roots.map .folder
  | .classList classMap classes exclude? out =>
    (classMap :: classes :: out :: exclude?.toList).map .file

/-- The paths that an invocation looks at. -/
def Invocation.inspected (i : Invocation) : List Inspected :=
  i.settings?.toList.map .file ++ i.command.inspected

end AccessorCatalog.CommandLine
