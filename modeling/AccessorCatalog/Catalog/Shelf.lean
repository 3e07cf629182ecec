/-
# Shelves of catalogs

The catalogs of a run lie in one folder, its shelf.  `listings` reads a shelf back: the files whose
names end in `.txt` and which name a class.  Of several catalogs of one class the one with the first
file name counts; a file that is not text throughout is passed over.
-/
import AccessorCatalog.Catalog.Listing
import AccessorCatalog.Files.Path
import AccessorCatalog.Table
import AccessorCatalog.Text.Utf8

namespace AccessorCatalog.Shelf

/-- The name of the shelf in the folder of a run. -/
def name : Text :=
  "txt".toList

/-- The extension of the files on a shelf. -/
def fileExtension : Text :=
  "txt".toList

/-- The listing that a file gives, if it is a catalog of a class. -/
def listing? (fileName : Text) (bytes : List UInt8) : Option Listing := do
  let listing ← (Text.decode? bytes).map Listing.parse
  if Files.Path.extension? fileName = some fileExtension ∧ listing.className ≠ [] then some listing
  else none

/-- Adds the listing of a file, unless one of its class is there. -/
def addListing (listings : Table Listing) (fileName : Text) (bytes : List UInt8) : Table Listing :=
  match listing? fileName bytes with
  | some listing => listings.insertNew listing.className listing
  | none => listings

/-- The listings of a shelf, by class, from its files with their names. -/
def listings (files : List (Text × List UInt8)) : Table Listing :=
  (Table.ofList files).entries.foldl
    (fun listings (fileName, bytes) => addListing listings fileName bytes) .empty

end AccessorCatalog.Shelf
