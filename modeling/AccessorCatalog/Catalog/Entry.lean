/-
# Catalog entries

An entry is what a catalog says of one class: its record, the accessors that it offers by itself or
through its base classes and through chains, and the base classes that were followed.
-/
import AccessorCatalog.Accessor.Basic
import AccessorCatalog.Outline.ClassOutline

namespace AccessorCatalog

/-- What a catalog says of a class. -/
structure CatalogEntry where
  record : ClassRecord
  methods : List MethodAccessor
  members : List MemberAccessor
  /-- The base classes, nearest first. -/
  inherited : List Text
  deriving DecidableEq

namespace CatalogEntry

/-- The entry of a class without accessors. -/
def ofRecord (record : ClassRecord) : CatalogEntry :=
  ⟨record, [], [], []⟩

/-- Whether the class offers nothing. -/
def isEmpty (e : CatalogEntry) : Bool :=
  e.methods.isEmpty && e.members.isEmpty

/-- The classes that contribute accessors, in the order in which they first appear, methods before
data members. -/
def owners (e : CatalogEntry) : List Text :=
  (e.methods.map MethodAccessor.owner ++ e.members.map MemberAccessor.owner).foldl
    (fun owners owner => if owners.contains owner then owners else owners ++ [owner]) []

end CatalogEntry
end AccessorCatalog
