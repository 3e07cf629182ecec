/-
# Names of catalog files

The catalog of a class is a file named after the header and the class:
`DataFormats/Track/interface/Track.h` and `reco::Track` give `DataFormats.Track.Track.Track.txt`.
The mapping forgets directories named `interface`, the extension, the namespace and the template
arguments, so two classes can share a name.
-/
import AccessorCatalog.ClassName

namespace AccessorCatalog.FileName

/-- The path of a header without its extension.  A point in a directory's name is no extension. -/
def withoutExtension (path : Text) : Text :=
  match Text.cutLast? ['.'] path with
  | some (base, extension) => if extension.contains '/' then path else base
  | none => path

/-- The header's part of a file name. -/
def stem (header : Text) : Text :=
  (withoutExtension (Text.replace "interface/".toList [] header)).map fun c =>
    if c = '/' then '.' else c

/-- A character that may stand in a file name. -/
def isSafe (c : Char) : Bool :=
  Text.isWord c || c == '.' || c == '-'

/-- The name of the catalog file of a class. -/
def ofClass (header className : Text) : Text :=
  let short := ClassName.short (ClassName.withoutArguments className)
  stem header ++ '.' :: short.map (fun c => if isSafe c then c else '_') ++ ".txt".toList

end AccessorCatalog.FileName
