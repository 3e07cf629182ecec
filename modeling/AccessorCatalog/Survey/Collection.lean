/-
# Collecting accessors

The accessors of a class are its own followed by those of its base classes, nearest first; of
several accessors with one key the first counts.  Methods have their deduplication key, data members
their name.  What the oracle knows of a class is taken to include what it inherits, so then no base
class is added.
-/
import AccessorCatalog.Accessor.Selection
import AccessorCatalog.Declaration.DataMember
import AccessorCatalog.Survey.Bases

namespace AccessorCatalog.Survey

open Declaration

/-! ## 1. Accessors of one class -/

/-- The accessors that a class declares, the methods with their keys. -/
structure OwnAccessors where
  methods : List (Text × MethodAccessor)
  members : List MemberAccessor
  deriving DecidableEq

namespace OwnAccessors

/-- The keyed accessor that a method makes. -/
def keyedMethod? (className : Text) (s : Signature) : Option (Text × MethodAccessor) :=
  (Selection.method? s className).map fun m => (s.dedupKey, m)

/-- The accessors of decoded declarations. -/
def ofDeclarations (className : Text) (methods : List Signature) (members : List Member) :
    OwnAccessors :=
  ⟨methods.filterMap (keyedMethod? className),
    members.filterMap fun m => Selection.member? m className⟩

/-- The accessors that the oracle's answer gives. -/
def ofInfo (className : Text) (info : Reflection.ClassInfo) : OwnAccessors :=
  ofDeclarations className info.methods info.members

/-- The accessors that the text of a class gives; declarations that cannot be decoded give none. -/
def ofOutline (className : Text) (c : Outline.ClassOutline) : OwnAccessors :=
  ofDeclarations className
    (c.methods.filterMap fun d => (decodeMethod d).toOption)
    (c.members.filterMap fun d => (decodeMembers d).toOption).flatten

/-- The number of declarations of a class that cannot be decoded. -/
def undecodable (c : Outline.ClassOutline) : Nat :=
  (c.methods.filter fun d => (decodeMethod d).toOption.isNone).length +
    (c.members.filter fun d => (decodeMembers d).toOption.isNone).length

end OwnAccessors

/-- Where the accessors of a class come from. -/
inductive Origin where
  | oracle
  | header
  deriving DecidableEq, Repr

/-- The accessors that a class declares, and where they come from, if the class is known. -/
def ownAccessors (k : Knowledge) (name : Text) : Build (Option (OwnAccessors × Origin)) := do
  match ← ask k name with
  | some info => return some (.ofInfo name info, .oracle)
  | none =>
    match k.classes.get? name with
    | some c =>
      note fun r => { r with undecodable := r.undecodable + OwnAccessors.undecodable c }
      return some (.ofOutline name c, .header)
    | none => return none

/-! ## 2. Layers -/

/-- Adds a method, unless its key is there. -/
def addMethod (methods : List (Text × MethodAccessor)) (m : Text × MethodAccessor) :
    List (Text × MethodAccessor) :=
  if methods.any fun other => other.1 == m.1 then methods else methods ++ [m]

/-- Adds a data member, unless its name is there. -/
def addMember (members : List MemberAccessor) (m : MemberAccessor) : List MemberAccessor :=
  if members.any fun other => other.name == m.name then members else members ++ [m]

/-- The accessors of several layers, the first of each key. -/
def flattenLayers (layers : List OwnAccessors) : OwnAccessors :=
  ⟨(layers.flatMap OwnAccessors.methods).foldl addMethod [],
    (layers.flatMap OwnAccessors.members).foldl addMember []⟩

/-- The layers that base classes add. -/
def baseLayers (k : Knowledge) : (bases : List Text) → Build (List OwnAccessors)
  | [] => return []
  | base :: bases => do
    let own? ← ownAccessors k base
    let layers ← baseLayers k bases
    return (own?.map Prod.fst).toList ++ layers

/-- Reports once that a class has bases beyond the bound. -/
def reportOverrun (k : Knowledge) (name : Text) : Build Unit := do
  if (← get).overruns.contains name then return
  modify fun m => { m with overruns := name :: m.overruns }
  note fun r =>
    r.addDiagnostic (ParseError.basesTooDeep name k.settings.maxBaseDepth).message

/-- The accessors of a class with its base classes. -/
structure Collected where
  accessors : OwnAccessors
  bases : List Text
  deriving DecidableEq

/-- Own and inherited accessors of a class, if it is known. -/
def collect (k : Knowledge) (name : Text) : Build (Option Collected) := do
  let some (own, origin) ← ownAccessors k name | return none
  let chain ← baseChain k name
  if chain.overrun then reportOverrun k name
  let inherited ← match origin with
    | .oracle => pure []
    | .header => baseLayers k chain.bases
  return some ⟨flattenLayers (own :: inherited), chain.bases⟩

end AccessorCatalog.Survey
