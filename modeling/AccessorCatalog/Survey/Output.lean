/-
# The catalogs of a survey

A survey gives a file for every cataloged class, in the order of their names.  Classes can share a
file name; who writes the files in their order leaves the later class.
-/
import AccessorCatalog.Catalog.FileName
import AccessorCatalog.Catalog.Writer
import AccessorCatalog.Survey.Entries

namespace AccessorCatalog.Survey

/-- A catalog with the name of its file. -/
structure CatalogFile where
  name : Text
  text : Text
  deriving DecidableEq, Repr

/-- The file of an entry. -/
def catalogFile (k : Knowledge) (created : Text) (e : CatalogEntry) : CatalogFile :=
  ⟨FileName.ofClass e.record.header e.record.name, Catalog.render e k.settings.version created⟩

/-- The files of all cataloged classes. -/
def catalogFiles (created : Text) (k : Knowledge) : Build (List CatalogFile) := do
  return (← entries k).map (catalogFile k created)

end AccessorCatalog.Survey
