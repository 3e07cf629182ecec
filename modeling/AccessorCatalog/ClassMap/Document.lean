/-
# Class maps as files

A class map is stored as an object from names to headers: a name with one header has a string, a
name with a list of headers an array of strings.  Reading recovers from the shape which of the two
was written, so a stored map is read back as it was.
-/
import AccessorCatalog.ClassMap.Basic
import AccessorCatalog.Json.Reader
import AccessorCatalog.Json.Writer

namespace AccessorCatalog

/-- The document of some headers. -/
def HeaderPaths.toJson : HeaderPaths → Json
  | .one path => .text path
  | .many paths => .texts paths

/-- The headers that a document gives. -/
def HeaderPaths.ofJson? : Json → Option HeaderPaths
  | .text path => some (.one path)
  | document => (document.toList? Json.toText?).map .many

namespace ClassMap

/-- The document of a class map. -/
def toJson (m : ClassMap) : Json :=
  .object (m.entries.map fun (name, paths) => (name, paths.toJson))

/-- The class map that a document gives; of a repeated name the last value counts. -/
def ofJson? (document : Json) : Option ClassMap :=
  (document.toEntries? HeaderPaths.ofJson?).map Table.ofList

/-- The text of a class map file. -/
def render (m : ClassMap) : Text :=
  m.toJson.pretty ++ ['\n']

/-- Reads the text of a class map file. -/
def parse? (t : Text) : Option ClassMap :=
  (Json.parse? t).bind ofJson?

end ClassMap
end AccessorCatalog
