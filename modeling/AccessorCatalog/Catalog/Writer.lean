/-
# Writing a catalog

A catalog is a text of labelled sections: the class, its header, its base classes, the version and
the time of creation, and then for every class that contributes something a section of methods, and
after all of these the sections of data members.
-/
import AccessorCatalog.Catalog.Entry

namespace AccessorCatalog.Catalog

/-- The name written behind the time of creation. -/
def toolName : Text :=
  "headercat".toList

/-- The width of the column of labels. -/
def labelWidth : Nat := 15

/-- A label in its column. -/
def label (name : String) : Text :=
  Text.padRight labelWidth (name.toList ++ [':'])

/-- A line with a label. -/
def labelled (name : String) (value : Text) : Text :=
  label name ++ value ++ ['\n']

/-- The section of base classes, the first beside the label and the others below it. -/
def basesSection : List Text → Text
  | [] => []
  | first :: others =>
    labelled "BaseClasses" first ++
      others.flatMap (fun base => List.replicate labelWidth ' ' ++ base ++ ['\n']) ++ ['\n']

/-- A section of accessors of one owner; nothing if there are none. -/
def ownerSection (name : String) (owner : Text) : (lines : List Text) → Text
  | [] => []
  | lines => '\n' :: labelled name owner ++ lines.flatMap fun line => line ++ ['\n']

/-- The lines of the methods that an owner contributes. -/
def methodLines (e : CatalogEntry) (owner : Text) : List Text :=
  (e.methods.filter fun m => m.owner == owner).map MethodAccessor.listingLine

/-- The lines of the data members that an owner contributes. -/
def memberLines (e : CatalogEntry) (owner : Text) : List Text :=
  (e.members.filter fun m => m.owner == owner).map MemberAccessor.listingLine

/-- The text of a catalog with a version and a time of creation. -/
def render (e : CatalogEntry) (version created : Text) : Text :=
  labelled "Class" e.record.name ++ ['\n'] ++
    labelled "Header" e.record.header ++ ['\n'] ++
    basesSection e.inherited ++
    labelled "Version" version ++
    labelled "Created" (created ++ '\t' :: toolName) ++
    (e.owners.flatMap fun owner => ownerSection "AccessMethods" owner (methodLines e owner)) ++
    e.owners.flatMap fun owner => ownerSection "DataMembers" owner (memberLines e owner)

end AccessorCatalog.Catalog
