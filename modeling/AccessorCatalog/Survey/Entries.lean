/-
# Catalog entries

The entry of a class lists its collected accessors as far as their types lead somewhere: to a value,
or to a known class.  Behind the methods come the chained accessors that start from them.  A chained
accessor is listed only if no listed method has its type and signature.

The links by which a chain goes on from a class are its collected accessors, data members included;
of a class that is known from an earlier run only, they are what its listing says.
-/
import AccessorCatalog.Accessor.Chain
import AccessorCatalog.Catalog.Entry
import AccessorCatalog.Survey.Collection

namespace AccessorCatalog.Survey

open Declaration

/-! ## 1. Links -/

/-- A data member as a link of a chain. -/
def memberLink (m : MemberAccessor) : MethodAccessor :=
  ⟨m.owner, m.type, m.name, m.name, m.name, 0, 0⟩

/-- The link that a line of a listing gives. -/
def listedLink? (className : Text) (e : ListedEntry) : Option MethodAccessor :=
  if e.isMethod then
    (decodeMethod (e.returnType ++ ' ' :: e.signature)).toOption.bind fun s =>
      Selection.method? s className
  else some (memberLink ⟨className, e.returnType, e.name⟩)

/-- The links that the listing of a class gives. -/
def listedLinks (k : Knowledge) (className : Text) : List MethodAccessor :=
  match k.listings.get? className with
  | some listing => listing.entries.filterMap (listedLink? className)
  | none => []

/-- The links of collected accessors. -/
def Collected.links (c : Collected) : List MethodAccessor :=
  c.accessors.methods.map Prod.snd ++ c.accessors.members.map memberLink

/-- The links of a class; they are remembered. -/
def links (k : Knowledge) (className : Text) : Build (List MethodAccessor) := do
  match (← get).links.get? className with
  | some known => return known
  | none =>
    let found := match ← collect k className with
      | some collected => collected.links
      | none => listedLinks k className
    modify fun m => { m with links := m.links.insert className found }
    return found

/-- Where the chains of a survey find their classes. -/
def chainSource (k : Knowledge) : ChainSource Build :=
  ⟨resolve k, links k⟩

/-! ## 2. Entries -/

/-- The record of a class: from its header, or made up from the oracle's answer. -/
def recordOf (k : Knowledge) (name : Text) : Build (Option ClassRecord) := do
  let info? ← ask k name
  match k.classes.get? name with
  | some c => return some c.record
  | none => return info?.map fun info => ⟨name, info.bases, [], (k.map.header? name).getD []⟩

/-- Whether a type leads somewhere when it is used in a class. -/
def isListable (k : Knowledge) (type owner : Text) : Build Bool := do
  match ReturnType.classify type with
  | .simple => return true
  | .compound name => return (← resolve k name owner).isSome
  | .unusable => return false

/-- The accessors that satisfy a test, asked in order. -/
def keepListable {α : Type} (test : α → Build Bool) : List α → Build (List α)
  | [] => return []
  | a :: as => do
    let keep ← test a
    let kept ← keepListable test as
    return if keep then a :: kept else kept

/-- The key of a chained accessor. -/
def chainKey (m : MethodAccessor) : Text :=
  canonical (m.returnType ++ ' ' :: m.signature)

/-- The chained accessors that have new keys, given the keys that are taken. -/
def newChains : (taken : List Text) → List MethodAccessor → List MethodAccessor
  | _, [] => []
  | taken, m :: ms =>
    if taken.contains (chainKey m) then newChains taken ms
    else m :: newChains (chainKey m :: taken) ms

/-- The chained accessors that start from the methods of a class. -/
def chains (k : Knowledge) (name : Text) (methods : List (Text × MethodAccessor)) :
    Build (List MethodAccessor) := do
  if k.settings.expandCompound then
    let found ← Chain.expand (chainSource k) name (methods.map Prod.snd) k.settings.maxCompoundDepth
    return newChains (methods.map Prod.fst) found
  else return []

/-- The catalog entry of a class, if headers or oracle know it. -/
def entry (k : Knowledge) (name : Text) : Build (Option CatalogEntry) := do
  let some record ← recordOf k name | return none
  let some collected ← collect k name | return some (.ofRecord record)
  let methods ← keepListable (fun m => isListable k m.2.returnType m.2.owner)
    collected.accessors.methods
  let members ← keepListable (fun m => isListable k m.type m.owner) collected.accessors.members
  let chained ← chains k name methods
  let methods := methods.map Prod.snd ++ chained
  note fun r => r.addEntry methods.length chained.length members.length
  return some ⟨record, methods, members, collected.bases⟩

/-- The names of the classes that are cataloged: all that have no template parameters. -/
def catalogedNames (k : Knowledge) : List Text :=
  (k.records.filter fun record => record.templateParams.isEmpty).map ClassRecord.name

/-- The entries of some classes. -/
def entriesOf (k : Knowledge) : (names : List Text) → Build (List CatalogEntry)
  | [] => return []
  | name :: names => do
    let found? ← entry k name
    let entries ← entriesOf k names
    return found?.toList ++ entries

/-- The entries of all cataloged classes, in the order of their names. -/
def entries (k : Knowledge) : Build (List CatalogEntry) := do
  note (·.startPhase "catalog".toList)
  let found ← entriesOf k (catalogedNames k)
  note (·.endPhase "catalog".toList)
  return found

/-- The report of the run so far. -/
def report : Build RunReport := do
  modify fun m => { m with report := m.report.setLookups m.answers.lookups }
  return (← get).report

end AccessorCatalog.Survey
