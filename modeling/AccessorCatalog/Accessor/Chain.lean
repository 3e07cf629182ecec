/-
# Chained accessors

An accessor that returns a class can be continued by the accessors of that class:
`vertex().position().x()`.  `expand` starts from the accessors of a class and follows every chain
until it ends in a value of a simple type, over a bounded number of links.  No class is entered
twice on one chain, so that types which refer to each other do not make chains for ever.

The chains of one length are followed before those of the next, each length in the order in which
its chains arose.  Where classes and their accessors are looked up is left open: a `ChainSource` may
do so with effects.
-/
import AccessorCatalog.Accessor.Basic
import AccessorCatalog.Accessor.ReturnType

namespace AccessorCatalog

/-- Where a chain finds the classes that it goes through. -/
structure ChainSource (m : Type → Type) where
  /-- The class that a name stands for when it is used inside a scope. -/
  resolve : (name scope : Text) → m (Option Text)
  /-- The accessors by which a chain may go on from a class. -/
  links : (className : Text) → m (List MethodAccessor)

/-- A chain that ends in a class so far. -/
structure Chain where
  accessor : MethodAccessor
  /-- The classes on the chain, the last one first; the class that it starts from is among them. -/
  path : List Text
  deriving DecidableEq

namespace Chain

/-- The chain with a link behind it, as an accessor. -/
def join (chain : Chain) (link : MethodAccessor) : MethodAccessor :=
  let delimiter := ReturnType.chainDelimiter chain.accessor.returnType
  let signature := chain.accessor.signature ++ delimiter ++ link.signature
  { owner := chain.accessor.owner
    returnType := link.returnType
    name := signature
    signature
    call := chain.accessor.call ++ delimiter ++ link.call
    requiredArgs := chain.accessor.requiredArgs + link.requiredArgs
    defaultedArgs := chain.accessor.defaultedArgs + link.defaultedArgs }

/-- The chain that an accessor starts, if it returns a class. -/
def start? (className : Text) (root : MethodAccessor) : Option Chain :=
  match ReturnType.classify root.returnType with
  | .compound _ => some ⟨root, [className]⟩
  | _ => none

/-- The chains that are complete with one more link, and those that can go on. -/
structure Continuations where
  complete : List MethodAccessor
  going : List Chain

/-- How a chain continues by the links of the class that it ends in. -/
def continuations (chain : Chain) (target : Text) (links : List MethodAccessor) : Continuations :=
  { complete :=
      (links.filter fun link => ReturnType.classify link.returnType = .simple).map chain.join
    going := links.filterMap fun link =>
      match ReturnType.classify link.returnType with
      | .compound _ => some ⟨chain.join link, target :: chain.path⟩
      | _ => none }

/-- Follows a chain by one link. -/
def follow {m : Type → Type} [Monad m] (source : ChainSource m) (chain : Chain) :
    m Continuations :=
  match ReturnType.classify chain.accessor.returnType with
  | .compound name => do
    match ← source.resolve name (chain.path.headD []) with
    | some target =>
      if chain.path.contains target then return ⟨[], []⟩
      else return chain.continuations target (← source.links target)
    | none => return ⟨[], []⟩
  | _ => return ⟨[], []⟩

/-- The complete accessors of chains that can have `more` links beyond the next one. -/
def expandLevels {m : Type → Type} [Monad m] (source : ChainSource m) :
    (more : Nat) → List Chain → m (List MethodAccessor)
  | 0, chains => do
    return (← chains.mapM (follow source)).flatMap Continuations.complete
  | more + 1, chains => do
    let continued ← chains.mapM (follow source)
    let going := continued.flatMap Continuations.going
    let complete := continued.flatMap Continuations.complete
    if going.isEmpty then return complete
    else return complete ++ (← expandLevels source more going)

/-- The chained accessors of a class with at most `maxLinks` links behind each root.  One link is
always tried. -/
def expand {m : Type → Type} [Monad m] (source : ChainSource m) (className : Text)
    (roots : List MethodAccessor) (maxLinks : Nat) : m (List MethodAccessor) :=
  expandLevels source (maxLinks - 1) (roots.filterMap (start? className))

end Chain
end AccessorCatalog
