/-
# Inheritance graphs

The nodes are class names, in the order in which they are first seen; an edge goes from a class to
each base that it declares, in the order of declaration.  A *cycle* is a set of more than one class
each of which reaches all others; a graph is cyclic also if a class names itself as a base.
-/
import AccessorCatalog.Outline.ClassOutline

namespace AccessorCatalog

/-- Classes and their declared bases. -/
structure InheritanceGraph where
  classes : List Text
  edges : List (Text × Text)
  deriving DecidableEq, Repr

namespace InheritanceGraph

/-! ## 1. Building -/

/-- The graph without classes. -/
def empty : InheritanceGraph :=
  ⟨[], []⟩

/-- Adds a class, unless it is there already. -/
def addClass (g : InheritanceGraph) (name : Text) : InheritanceGraph :=
  if g.classes.contains name then g else { g with classes := g.classes ++ [name] }

/-- The place of a class among the nodes. -/
def index (g : InheritanceGraph) (name : Text) : Nat :=
  g.classes.idxOf name

/-- Adds an edge from a class to a base, and both classes where they are missing. -/
def addBase (g : InheritanceGraph) (name base : Text) : InheritanceGraph :=
  let g := (g.addClass name).addClass base
  { g with edges := g.edges ++ [(name, base)] }

/-- Adds a class with its bases. -/
def addRecord (g : InheritanceGraph) (record : ClassRecord) : InheritanceGraph :=
  record.bases.foldl (fun g base => g.addBase record.name base) (g.addClass record.name)

/-- The graph of some classes. -/
def ofRecords (records : List ClassRecord) : InheritanceGraph :=
  records.foldl addRecord empty

/-! ## 2. Questions -/

/-- The declared bases of a class, in the order of declaration. -/
def bases (g : InheritanceGraph) (name : Text) : List Text :=
  (g.edges.filter fun e => e.1 == name).map Prod.snd

/-- The classes met from those in `waiting`, added to `seen`.  Every step takes one class from
`waiting`, and every edge puts one there at most once, which bounds the number of steps. -/
def visit (g : InheritanceGraph) : (steps : Nat) → (waiting seen : List Text) → List Text
  | 0, _, seen => seen
  | _ + 1, [], seen => seen
  | steps + 1, name :: waiting, seen =>
    if seen.contains name then g.visit steps waiting seen
    else g.visit steps (g.bases name ++ waiting) (name :: seen)

/-- The classes that a class reaches over its bases, itself included. -/
def reached (g : InheritanceGraph) (name : Text) : List Text :=
  g.visit (g.edges.length + 1) [name] []

/-- Whether a class is reached from another or is that class. -/
def reaches (g : InheritanceGraph) (start goal : Text) : Bool :=
  (g.reached start).contains goal

/-- The members of the cycle that a class is on, sorted, if it is on one. -/
def cycle? (g : InheritanceGraph) (name : Text) : Option (List Text) :=
  let members := (g.reached name).filter fun other => g.reaches other name
  if g.classes.contains name && members.length > 1 then some (Text.sort members) else none

/-- Whether some class is reached from one of its bases. -/
def isCyclic (g : InheritanceGraph) : Bool :=
  g.edges.any fun (name, base) => g.reaches base name

/-- Whether a list of names comes before another: by the first names that differ. -/
def namesPrecede (a b : List Text) : Bool :=
  decide (a < b)

/-- Every cycle of the graph once, in the order of their members. -/
def cycles (g : InheritanceGraph) : List (List Text) :=
  ((g.classes.filterMap g.cycle?).mergeSort fun a b => !namesPrecede b a).eraseDups

end InheritanceGraph
end AccessorCatalog
