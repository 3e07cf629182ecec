/-
# What a survey knows

The knowledge of a survey is what its questions are answered from: the settings, a reflection
oracle, the class map, the classes of the headers read so far with their inheritance graph, and the
listings of an earlier run.  Only reading headers changes it.

Headers are merged in the order of their paths.  The first definition of a class counts, and a
header that cannot be read adds nothing.  When a survey updates a given class map, names that the
map has keep what they have.
-/
import AccessorCatalog.Catalog.Listing
import AccessorCatalog.ClassMap.Basic
import AccessorCatalog.Inheritance.Graph
import AccessorCatalog.Reflection.ClassInfo
import AccessorCatalog.Settings

namespace AccessorCatalog.Survey

open Outline

/-! ## 1. Headers -/

/-- A header: its path and its text. -/
structure Header where
  path : Text
  text : Text
  deriving DecidableEq, Repr

/-- A header that has been read, with its classes or the reason why it has none. -/
structure ParsedHeader where
  path : Text
  outcome : Except ParseError (List ClassOutline)

/-- Headers in the order of their paths; headers of one path keep their places. -/
def sortByPath {α : Type} (path : α → Text) (headers : List α) : List α :=
  headers.mergeSort fun a b => !Text.precedes (path b) (path a)

/-- Reads a header. -/
def Header.parse (limit : Nat) (h : Header) : ParsedHeader :=
  ⟨h.path, parseHeader limit h.path h.text⟩

/-! ## 2. Registering names -/

/-- Whether a record declares a template or an instance of one. -/
def isTemplate (record : ClassRecord) : Bool :=
  ClassName.primary record.name != record.name || !record.templateParams.isEmpty

/-- Adds the full name of a record, if it is more than the name of its template. -/
def registerFull (map : ClassMap) (record : ClassRecord) : ClassMap :=
  if ClassName.primary record.name = record.name then map
  else map.insertPlain record.name record.header

/-- Adds the name of a record's template, or its plain name. -/
def registerPrimary (map : ClassMap) (record : ClassRecord) : ClassMap :=
  let primary := ClassName.primary record.name
  if isTemplate record then map.insertTemplate primary record.header
  else map.insertPlain primary record.header

/-- Adds the names of a record to a class map.  When `updating`, a name that is there keeps its
headers. -/
def register (updating : Bool) (map : ClassMap) (record : ClassRecord) : ClassMap :=
  let map := registerFull map record
  if updating && map.contains (ClassName.primary record.name) then map
  else registerPrimary map record

/-! ## 3. Knowledge -/

/-- What the questions of a survey are answered from. -/
structure Knowledge where
  settings : Settings
  oracle : Reflection.Oracle
  map : ClassMap
  /-- The survey started from a class map, to which only missing names are added. -/
  updating : Bool
  classes : Table ClassOutline
  graph : InheritanceGraph
  listings : Table Listing

namespace Knowledge

/-- The knowledge before any header is read. -/
def start (settings : Settings) (oracle : Reflection.Oracle) : Knowledge :=
  ⟨settings, oracle, .empty, false, .empty, .empty, .empty⟩

/-- Starts from a class map, to which only missing names are added. -/
def updatingMap (k : Knowledge) (map : ClassMap) : Knowledge :=
  { k with map, updating := true }

/-- Adds the listings of an earlier run. -/
def withListings (k : Knowledge) (listings : Table Listing) : Knowledge :=
  { k with listings }

/-- Adds a class; if its name is known already, only the class map learns of it. -/
def mergeClass (k : Knowledge) (c : ClassOutline) : Knowledge :=
  { k with
    map := register k.updating k.map c.record
    classes := k.classes.insertNew c.record.name c }

/-- Adds the classes of a header. -/
def mergeHeader (k : Knowledge) (h : ParsedHeader) : Knowledge :=
  match h.outcome with
  | .ok classes => classes.foldl mergeClass k
  | .error _ => k

/-- The records of all classes, in the order of their names. -/
def records (k : Knowledge) : List ClassRecord :=
  k.classes.values.map ClassOutline.record

/-- Adds headers in the order of their paths. -/
def merge (k : Knowledge) (headers : List ParsedHeader) : Knowledge :=
  let k := (sortByPath ParsedHeader.path headers).foldl mergeHeader k
  { k with graph := .ofRecords k.records }

/-- Whether a name is known without asking the oracle. -/
def knows (k : Knowledge) (name : Text) : Bool :=
  k.map.contains name || k.classes.contains name || k.listings.contains name

end Knowledge
end AccessorCatalog.Survey
