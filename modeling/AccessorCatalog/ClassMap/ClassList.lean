/-
# Class lists

A class list names the classes that a program exposes, each with the package of its header and
whether it comes alone or in a collection.  It is built from a list of names: names that are too
complicated are left out, a vector stands for its elements, and a class without a known header is
dropped.
-/
import AccessorCatalog.ClassMap.Basic
import AccessorCatalog.ClassName

namespace AccessorCatalog.ClassList

/-! ## 1. Exclusion -/

/-- The starts of names that are too complicated to list. -/
def defaultExclusions : List Text :=
  ["edmNew", "RefVector", "PtrVector", "Collection", "edm::Ptr", "edm::Ref", "edm::FwdRef",
    "edm::PtrVector", "edm::EDCollection", "edm::DetSet", "edm::AssociationMap", "edm::Association",
    "edm::ValueMap", "edm::RangeMap", "edm::OwnVector", "edm::Lazy", "std::vector<edm::Fwd",
    "std::vector<edm::Ref", "std::vector<edm::Ptr", "std::pair", "std::map", "std::set",
    "edm::helpers", "edm::refhelper", "TemplatedSecondary"].map String.toList

/-- The starts of excluded names: the defaults and further ones. -/
def exclusions (extra : List Text) : List Text :=
  defaultExclusions ++ (extra.map Text.trim).filter fun head => !head.isEmpty

/-- Whether a name starts with an exclusion. -/
def isExcluded (exclusions : List Text) (name : Text) : Bool :=
  exclusions.any fun head => Text.startsWith head name

/-- The pieces of text that exclude a name wherever they stand. -/
def skippedPieces : List Text :=
  ["edm::helpers", "edm::refhelper", "edm::DetSet", "IPTagInfo", "std::pair", "PattRecoTree",
    "TemplatedSecondary"].map String.toList

/-- Whether a name holds `Point`, a character and `D`. -/
def hasPointDimension : Text → Bool
  | [] => false
  | c :: t =>
    (match Text.afterPrefix? "Point".toList (c :: t) with
      | some (d :: 'D' :: _) => d != '\n'
      | _ => false) || hasPointDimension t

/-- Whether something in a name excludes it. -/
def isSkipped (name : Text) : Bool :=
  (skippedPieces.any fun piece => Text.hasPiece piece name) || hasPointDimension name

/-! ## 2. Entries -/

/-- Whether a class comes in collections or alone. -/
inductive Multiplicity where
  | collection
  | singleton
  deriving DecidableEq, Repr

/-- A line of a class list. -/
structure Entry where
  package : Text
  className : Text
  multiplicity : Multiplicity
  deriving DecidableEq, Repr

/-- The package of a header: its path before `/interface`, behind the last `/src/` of that. -/
def package (header : Text) : Text :=
  let before := match Text.cutFirst? "/interface".toList header with
    | some (left, _) => left
    | none => header
  Text.afterLast "/src/".toList before

/-- The element of a vector. -/
def vectorElement? (name : Text) : Option Text := do
  let inner ← Text.afterPrefix? "vector<".toList (Text.withoutPrefix "std::".toList name)
  let element ← Text.beforeSuffix? ['>'] inner
  if element.isEmpty || element.contains '\n' then none else some (Text.trim element)

/-- The class that a name denotes, and whether it is a collection of it. -/
def denoted (name : Text) : Text × Multiplicity :=
  match vectorElement? name with
  | some element => (element, .collection)
  | none =>
    if Text.hasPiece "SortedCollection".toList name then (name, .collection) else (name, .singleton)

/-- The header of a class, or of the template that it is an instance of. -/
def lookup? (m : ClassMap) (className : Text) : Option Text :=
  (m.header? className).or (m.header? (ClassName.primary className))

/-- The entry that a name gives. -/
def lineOf? (m : ClassMap) (exclusions : List Text) (name : Text) : Option Entry := do
  let (className, multiplicity) := denoted name
  let header ← lookup? m className
  if isExcluded exclusions name || isSkipped name || Text.endsWith ['*'] className then none
  else some ⟨package header, className, multiplicity⟩

/-- Adds an entry: a collection replaces what is there for its class, a single one does not. -/
def add (chosen : Table Entry) (e : Entry) : Table Entry :=
  match e.multiplicity with
  | .collection => chosen.insert e.className e
  | .singleton => chosen.insertNew e.className e

/-- Whether an entry comes before another or at the same place: by package, then by class. -/
def Entry.precedes (a b : Entry) : Bool :=
  Text.precedes a.package b.package ||
    (a.package == b.package && !Text.precedes b.className a.className)

/-- The names to look at: trimmed, not empty, sorted. -/
def candidates (classes : List Text) : List Text :=
  Text.sort ((classes.map Text.trim).filter fun name => !name.isEmpty)

/-- The class list for some names. -/
def build (classes : List Text) (m : ClassMap) (exclusions : List Text) : List Entry :=
  let entries := (candidates classes).filterMap (lineOf? m exclusions)
  (entries.foldl add .empty).values.mergeSort Entry.precedes

/-! ## 3. The file -/

/-- The word for a multiplicity. -/
def Multiplicity.render : Multiplicity → Text
  | .collection => "collection".toList
  | .singleton => "singleton".toList

/-- The text of a class list file. -/
def render (entries : List Entry) : Text :=
  entries.flatMap fun e =>
    e.package ++ '\t' :: e.className ++ '\t' :: e.multiplicity.render ++ ['\n']

end AccessorCatalog.ClassList
